import Mars.Fw.PitSteps
import Mars.Table.ContentStore

/-!
The expiry of PIT entries.

`InsertInterest` resets the expiration time of an entry to the epoch, and the timer is set anew
from the in-record that was inserted last, if that expires after the epoch.

* `Scheduled`: every entry of the PIT is in the expiry queue, with its expiration time; kept by
  every step in which no in-record is made that expires before the epoch (`pit_entries_scheduled`);
* `Outlives`: an entry that is not satisfied lives as long as all its in-records; kept by every
  step in which no Interest joins an entry with in-records that outlive its own
  (`pit_entry_outlives_records`).
-/

namespace Mars

open Function PitCsTree Option PriorityQueue List

variable {cfg : TableConfig} {p p' : PitCsTree} {e e' : ℕ} {now : Time} {time : Time} {out : Set ℕ}

/-! ### What the steps do to the entries -/

lemma entries_timer :
    (p.updateExpirationTimer e time).entries
      = update p.entries e { p.entries e with expirationTime := time, queued := true } := by
  unfold updateExpirationTimer
  split_ifs <;> rfl

lemma entries_timer_of_ne (hne : e' ≠ e) :
    (p.updateExpirationTimer e time).entries e' = p.entries e' := by
  rw [entries_timer, update_of_ne hne]

lemma outRecords_timer (e' : ℕ) :
    ((p.updateExpirationTimer e time).entries e').outRecords = (p.entries e').outRecords := by
  rw [entries_timer, update_apply]
  split_ifs with h
  exacts [h ▸ rfl, rfl]

/-- An entry that is removed points to no node, and has no records left if it did. -/
lemma entries_removeInterest (h : PitWf p) :
    (p.removeInterest e).entries = update p.entries e
      { p.entries e with
        encname := if (p.entries e).node = none then (p.entries e).encname else []
        node := none
        inRecords := if (p.entries e).node = none then (p.entries e).inRecords else []
        outRecords := if (p.entries e).node = none then (p.entries e).outRecords else [] } := by
  cases he : (p.entries e).node with
  | none =>
    have hsame : p.removeInterest e = p := by simp [removeInterest, he]
    rw [hsame, eq_comm, update_eq_iff]
    simp [← he]
  | some node =>
    have hdrop : p.removeInterest e = p.dropEntry e node := by
      simp [removeInterest, he, (h.listed e node he).2]
    rw [hdrop]
    simp [dropEntry, onEntry]

lemma entries_popExpired {popped : ℕ × PitCsTree} (hpop : p.popExpired now = some popped) :
    popped.2.entries = update p.entries popped.1 { p.entries popped.1 with queued := false } := by
  obtain ⟨item, -, rfl⟩ := map_eq_some_iff.mp hpop
  rfl

lemma entries_admitData (cfg : TableConfig) (p : PitCsTree) (data : FwData) (now : Time) :
    (p.admitData cfg data now).entries = p.entries
      ∧ (p.admitData cfg data now).pitExpiryQueue = p.pitExpiryQueue := by
  have hcs := csOnly_insertData cfg p data now
  unfold PitCsTree.admitData
  split_ifs
  · exact ⟨hcs.entries, hcs.pitExpiryQueue⟩
  · exact ⟨rfl, rfl⟩

lemma SameButUse.queue (h : SameButUse p p') : p'.pitExpiryQueue = p.pitExpiryQueue := by
  rw [h.table]

/-! ### The expiry queue -/

/-- Every entry of the PIT but those in `out` is in the expiry queue, with its expiration time;
an entry that is marked as queued is in the queue. -/
structure Scheduled (out : Set ℕ) (p : PitCsTree) : Prop where
  marked : ∀ e, (p.entries e).queued = true → ∃ prio, (e, prio) ∈ p.pitExpiryQueue
  timed : ∀ e ∉ out, (p.entries e).node ≠ none →
    (e, unixNano (p.entries e).expirationTime) ∈ p.pitExpiryQueue

namespace Scheduled

variable (h : Scheduled out p)
include h

/-- A step that leaves the queue, and what the queue depends on. -/
lemma congr
    (hentries : ∀ e, (p'.entries e).queued = (p.entries e).queued
      ∧ (p'.entries e).node = (p.entries e).node
      ∧ (p'.entries e).expirationTime = (p.entries e).expirationTime)
    (hqueue : p'.pitExpiryQueue = p.pitExpiryQueue) : Scheduled out p' where
  marked := fun e he => by
    rw [hqueue]
    exact h.marked e ((hentries e).1 ▸ he)
  timed := fun e he hnode => by
    obtain ⟨-, hn, ht⟩ := hentries e
    rw [hqueue, ht]
    exact h.timed e he (hn ▸ hnode)

lemma of_eq (hentries : p'.entries = p.entries)
    (hqueue : p'.pitExpiryQueue = p.pitExpiryQueue) : Scheduled out p' :=
  h.congr (fun e => by rw [hentries]; exact ⟨rfl, rfl, rfl⟩) hqueue

lemma relays (hr : Relays p p') : Scheduled out p' := by
  refine h.congr (fun e => ?_) (by rw [hr.table])
  rw [(hr.entry e).rest]
  exact ⟨rfl, rfl, rfl⟩

lemma mono {out' : Set ℕ} (hout : out ⊆ out') : Scheduled out' p :=
  ⟨h.marked, fun e he => h.timed e fun hin => he (hout hin)⟩

end Scheduled

/-- The timer of an entry puts it into the queue, or moves it there. -/
lemma Scheduled.timer (h : Scheduled {e} p) : Scheduled ∅ (p.updateExpirationTimer e time) := by
  have hself : (e, unixNano time) ∈ (p.updateExpirationTimer e time).pitExpiryQueue := by
    unfold updateExpirationTimer
    split_ifs with hq
    · obtain ⟨prio, hin⟩ := h.marked e hq
      exact mem_update_self hin
    · exact mem_push.mpr (.inr rfl)
  have hother : ∀ e' prio, e' ≠ e → (e', prio) ∈ p.pitExpiryQueue →
      (e', prio) ∈ (p.updateExpirationTimer e time).pitExpiryQueue := by
    intro e' prio hne hin
    unfold updateExpirationTimer
    split_ifs
    · exact mem_update_of_ne hin hne
    · exact mem_push.mpr (.inl hin)
  refine ⟨fun e' he' => ?_, fun e' _ hnode => ?_⟩
  · rcases eq_or_ne e' e with rfl | hne
    · exact ⟨_, hself⟩
    · rw [entries_timer_of_ne hne] at he'
      obtain ⟨prio, hin⟩ := h.marked e' he'
      exact ⟨prio, hother e' prio hne hin⟩
  · rcases eq_or_ne e' e with rfl | hne
    · rw [entries_timer, update_self]
      exact hself
    · rw [entries_timer_of_ne hne] at hnode ⊢
      exact hother e' _ hne (h.timed e' hne hnode)

lemma Scheduled.satisfiesAll {es : List ℕ} (hs : SatisfiesAll now es p p')
    (h : Scheduled ∅ p) : Scheduled ∅ p' := by
  induction hs with
  | nil => exact h
  | cons hfirst _ ih =>
    cases hfirst with
    | intro hrelays =>
      rename_i e _ _ _ q _
      have hsent := ((h.mono (Set.empty_subset {e})).timer).relays hrelays
      refine ih (hsent.congr (fun e' => ?_) rfl)
      rcases eq_or_ne e' e with rfl | hne
      · rw [onEntry_self]
        exact ⟨rfl, rfl, rfl⟩
      · rw [onEntry_of_ne hne]
        exact ⟨rfl, rfl, rfl⟩

/-- An entry that is taken out of the queue is also taken out of the PIT. -/
lemma Scheduled.expires (hx : Expires now p p') (hwf : PitWf p) (h : Scheduled ∅ p) :
    Scheduled ∅ p' := by
  induction hx with
  | nil => exact h
  | @cons p p' popped hpop _ ih =>
    have hentries := entries_popExpired hpop
    have hwf' := ((samePit_popExpired hpop).1.grows hwf).wf
    obtain ⟨hremoved, -, hqueue⟩ := removeInterest_spec hwf'
    refine ih hremoved ?_
    have hother : ∀ e ≠ popped.1,
        (popped.2.removeInterest popped.1).entries e = p.entries e := fun e hne => by
      rw [entries_removeInterest hwf', update_of_ne hne, hentries, update_of_ne hne]
    have hkeep : ∀ e prio, e ≠ popped.1 → (e, prio) ∈ p.pitExpiryQueue →
        (e, prio) ∈ (popped.2.removeInterest popped.1).pitExpiryQueue := by
      intro e prio hne hin
      rw [hqueue]
      obtain ⟨⟨v, rest⟩, hpopped, rfl⟩ := map_eq_some_iff.mp hpop
      obtain ⟨_, -, -, rfl⟩ := popIf_spec hpopped
      exact (mem_erase_of_ne fun heq => hne (congrArg Prod.fst heq)).mpr hin
    refine ⟨fun e he => ?_, fun e _ hnode => ?_⟩
    · rcases eq_or_ne e popped.1 with rfl | hne
      · rw [entries_removeInterest hwf', update_self, hentries, update_self] at he
        cases he
      · rw [hother e hne] at he
        obtain ⟨prio, hin⟩ := h.marked e he
        exact ⟨prio, hkeep e prio hne hin⟩
    · rcases eq_or_ne e popped.1 with rfl | hne
      · rw [entries_removeInterest hwf', update_self] at hnode
        exact absurd rfl hnode
      · rw [hother e hne] at hnode ⊢
        exact hkeep e _ hne (h.timed e (Set.notMem_empty e) hnode)

/-! ### An Interest enters -/

/-- The table after `InsertInRecord` for a packet with the entry `e`: the expiration time of the
entry is reset, its in-record of the incoming face is the packet's, and those of other faces it
has had before. -/
structure Recorded (cfg : TableConfig) (p : PitCsTree) (pkt : InterestPkt) (e : ℕ) (now : Time)
    (p' : PitCsTree) : Prop where
  others : ∀ e' ≠ e, p'.entries e' = p.entries e'
  queue : p'.pitExpiryQueue = p.pitExpiryQueue
  reset : (p'.entries e).expirationTime = 0
  marked : (p'.entries e).queued = true → (p.entries e).queued = true
  record : ∀ r ∈ (p'.entries e).inRecords,
    r.face = pkt.incomingFaceID ∧ r.expirationTime = pkt.deadline now
      ∨ r.face ≠ pkt.incomingFaceID ∧ r ∈ (p.entries e).inRecords
        ∧ (p'.entries e).satisfied = (p.entries e).satisfied
        ∧ p.Joins cfg pkt.interest (forwardingHintOf cfg pkt.interest.forwardingHint) e
  csAt : ∀ node index, p'.CsAt node index → p.CsAt node index

variable (entry : NameTreePitEntry)

/-- The records of an entry after `InsertInRecord`: that of the incoming face has the token of the
packet if it is new, and its old one if not. -/
lemma insertInRecord_records (pkt : InterestPkt) (nonce : ℕ) (now : Time) :
    ∀ r ∈ (entry.insertInRecord pkt.decremented nonce pkt.incomingFaceID pkt.pitToken
        now).1.inRecords,
      (r.face = pkt.incomingFaceID ∧ r.expirationTime = pkt.deadline now)
          ∧ ((∃ r' ∈ entry.inRecords, r'.face = r.face ∧ r'.pitToken = r.pitToken)
            ∨ r.pitToken = pkt.pitToken ∧ ∀ r' ∈ entry.inRecords, r'.face ≠ r.face)
        ∨ r.face ≠ pkt.incomingFaceID ∧ r ∈ entry.inRecords := by
  intro r hr
  simp only [NameTreePitEntry.insertInRecord] at hr
  split at hr
  · rename_i hfind
    have hnone : ∀ r' ∈ entry.inRecords, r'.face ≠ pkt.incomingFaceID := by
      simpa using find?_eq_none.mp hfind
    rcases mem_append.mp hr with hold | hnew
    · exact .inr ⟨hnone r hold, hold⟩
    · rw [mem_singleton.mp hnew]
      exact .inl ⟨⟨rfl, rfl⟩, .inr ⟨rfl, hnone⟩⟩
  · rename_i previous hprevious
    obtain ⟨r', hr', rfl⟩ := mem_map.mp hr
    split_ifs with hface
    · have hsame : previous.face = pkt.incomingFaceID := by simpa using find?_some hprevious
      exact .inl ⟨⟨rfl, rfl⟩, .inl ⟨previous, mem_of_find?_eq_some hprevious, hsame, rfl⟩⟩
    · exact .inr ⟨hface, hr'⟩

/-- `InsertInRecord` leaves the rest of the entry. -/
lemma insertInRecord_rest (pkt : InterestPkt) (nonce : ℕ) (now : Time) :
    (entry.insertInRecord pkt.decremented nonce pkt.incomingFaceID pkt.pitToken now).1
      = { entry with inRecords := (entry.insertInRecord pkt.decremented nonce pkt.incomingFaceID
          pkt.pitToken now).1.inRecords } := by
  simp only [NameTreePitEntry.insertInRecord]
  split <;> rfl

lemma recorded_insertPkt (h : PitWf p) {pkt : InterestPkt} {nonce pick : ℕ} {q : PitCsTree}
    (hinsert : p.insertPkt cfg pkt nonce pick = (q, e, false)) (now : Time) :
    Recorded cfg p pkt e now (q.recordPkt pkt nonce e now) := by
  obtain ⟨q, hq, rfl⟩ := insertInterest_reset h hinsert
  set entry := { q.entries e with expirationTime := 0 } with hentry
  have hself : ((q.onEntry e fun entry => { entry with expirationTime := 0 }).recordPkt pkt nonce
      e now).entries e
        = (entry.insertInRecord pkt.decremented nonce pkt.incomingFaceID pkt.pitToken now).1 := by
    rw [recordPkt, onEntry_self, onEntry_self]
  have hrest := insertInRecord_rest entry pkt nonce now
  refine ⟨fun e' hne => ?_, hq.queue, ?_, ?_, ?_, fun node index hat => ?_⟩
  · rw [recordPkt, onEntry_of_ne hne, onEntry_of_ne hne, hq.others hne]
  · rw [hself, hrest]
  · rw [hself, hrest]
    cases hq with
    | joined => exact id
    | made _ hmade =>
      rw [hentry, hmade.entry]
      exact fun hqueued => by cases hqueued
  · intro r hr
    rw [hself] at hr
    refine (insertInRecord_records entry pkt nonce now r hr).imp And.left fun hkept => ?_
    obtain ⟨hface, hold⟩ := hkept
    cases hq with
    | joined hjoins =>
      refine ⟨hface, hold, ?_, { hjoins with }⟩
      rw [hself, hrest]
      rfl
    | made _ hmade =>
      rw [hentry, hmade.entry] at hold
      exact absurd hold not_mem_nil
  · exact (hq.csAt h).mp hat

/-- The Interest is served from the content store, or its entry lives on for its lifetime. -/
lemma Scheduled.enters {pkt : InterestPkt} {nonce : ℕ} {wish : List ℕ} {q : PitCsTree}
    (hrec : Recorded cfg p pkt e now q) (hen : Enters cfg pkt nonce e now wish q p')
    (hlasts : 0 < pkt.deadline now) (h : Scheduled ∅ p) : Scheduled ∅ p' := by
  have hq : Scheduled {e} q := by
    refine ⟨fun e' he' => ?_, fun e' hne hnode => ?_⟩
    · rw [hrec.queue]
      rcases eq_or_ne e' e with rfl | hne
      · exact h.marked e' (hrec.marked he')
      · exact h.marked e' (hrec.others e' hne ▸ he')
    · rw [hrec.others e' hne] at hnode ⊢
      rw [hrec.queue]
      exact h.timed e' (Set.notMem_empty e') hnode
  cases hen with
  | served index hserve hfound =>
    have huse := sameButUse_findMatchingDataFromCS cfg q pkt.decremented now wish
    rw [hfound] at huse
    exact ((hq.of_eq huse.entries huse.queue).timer).relays relays_removeInRecord
  | @forwarded q' _ huse hrelays =>
    have hreset : (q'.entries e).expirationTime < pkt.deadline now := by
      rw [huse.entries, hrec.reset]
      exact hlasts
    rw [prolong, if_pos hreset] at hrelays
    exact ((hq.of_eq huse.entries huse.queue).timer).relays hrelays

/-! ### No entry leaks -/

/-- The in-record of an Interest expires after the epoch. -/
def ThreadEvent.Lasting : ThreadEvent → Prop
  | .interest pkt now _ _ _ => 0 < pkt.deadline now
  | _ => True

/-- **What one step keeps.** -/
lemma scheduled_step {ev : ThreadEvent} (hwf : PitWf p) (hs : PitStep cfg p ev p')
    (hev : ev.Lasting) (h : Scheduled ∅ p) : Scheduled ∅ p' := by
  cases hs with
  | relays hrelays => exact h.relays hrelays
  | looped hnonce hinsert =>
    obtain ⟨-, rfl⟩ := insertInterest_looped hwf hinsert
    exact h.of_eq rfl rfl
  | entered hnonce hinsert henters => exact h.enters (recorded_insertPkt hwf hinsert _) henters hev
  | satisfied hall =>
    obtain ⟨hentries, hqueue⟩ := entries_admitData cfg p _ _
    exact (h.of_eq hentries hqueue).satisfiesAll hall
  | expired hexpires => exact h.expires hexpires hwf

/-- `Update` leaves nothing in the queue that is due. -/
lemma expireDue_drains {cfg : ThreadConfig} {fuel : ℕ} {t : Thread}
    (hfuel : t.pitCS.pitExpiryQueue.length ≤ fuel) (hwf : PitWf t.pitCS) :
    ∀ item ∈ (expireDue cfg now fuel t).pitCS.pitExpiryQueue, unixNano now < item.2 := by
  induction fuel generalizing t with
  | zero =>
    intro item hitem
    rw [expireDue, length_eq_zero_iff.mp (Nat.le_zero.mp hfuel)] at hitem
    exact absurd hitem not_mem_nil
  | succ fuel ih =>
    unfold expireDue
    split
    · rename_i hnone
      exact popIf_none (map_eq_none_iff.mp hnone)
    · rename_i popped hpop
      have hwf' := ((samePit_popExpired hpop).1.grows hwf).wf
      obtain ⟨hremoved, -, hqueue⟩ := removeInterest_spec hwf'
      refine ih ?_ hremoved
      -- the queue has one item less
      obtain ⟨⟨v, rest⟩, hpopped, rfl⟩ := map_eq_some_iff.mp hpop
      obtain ⟨_, -, hin, rfl⟩ := popIf_spec hpopped
      change (removeInterest _ _).pitExpiryQueue.length ≤ fuel
      rw [hqueue]
      change (t.pitCS.pitExpiryQueue.erase _).length ≤ fuel
      rw [length_erase_of_mem hin]
      omega

/-- **No PIT entry leaks**, in every run in which all in-records expire after the epoch: every
entry of the PIT is in the expiry queue with its expiration time, and `Update` leaves none whose
time has passed. -/
theorem pit_entries_scheduled (cfg : ThreadConfig) (es : List ThreadEvent)
    (hes : ∀ ev ∈ es, ev.Lasting) :
    (∀ e, (threadRun cfg es).pitCS.HasEntry e →
        (e, unixNano ((threadRun cfg es).pitCS.entries e).expirationTime)
          ∈ (threadRun cfg es).pitCS.pitExpiryQueue)
      ∧ ∀ now e, (updatePit cfg (threadRun cfg es) now).pitCS.HasEntry e →
        unixNano now
          < unixNano ((updatePit cfg (threadRun cfg es) now).pitCS.entries e).expirationTime := by
  have hrun : ∀ es : List ThreadEvent, (∀ ev ∈ es, ev.Lasting) →
      PitWf (threadRun cfg es).pitCS ∧ Scheduled ∅ (threadRun cfg es).pitCS := fun es hes =>
    pit_invariant (fun _ ev => ev.Lasting)
      (fun p ev p' hwf hs hev h => scheduled_step hwf hs hev h)
      ⟨fun _ h => Bool.noConfusion h, fun _ _ h => absurd rfl h⟩
      (Steps.guarded_of_forall_mem (fun ev hev _ => hes ev hev) _)
  have htimed : ∀ es : List ThreadEvent, (∀ ev ∈ es, ev.Lasting) → ∀ e,
      (threadRun cfg es).pitCS.HasEntry e →
        (e, unixNano ((threadRun cfg es).pitCS.entries e).expirationTime)
          ∈ (threadRun cfg es).pitCS.pitExpiryQueue := by
    intro es hes e he
    obtain ⟨hwf, h⟩ := hrun es hes
    obtain ⟨node, hnode⟩ := hwf.hasEntry_iff.mp he
    exact h.timed e (Set.notMem_empty e) (by rw [hnode]; exact some_ne_none node)
  refine ⟨htimed es hes, fun now e he => ?_⟩
  -- `Update` is the next step of the run
  have hstep : updatePit cfg (threadRun cfg es) now = threadRun cfg (es ++ [.update now]) :=
    (threadRun_concat cfg es (.update now)).symm
  have hnext : ∀ ev ∈ es ++ [.update now], ev.Lasting := by
    intro ev hev
    rcases mem_append.mp hev with hev | hev
    · exact hes ev hev
    · rw [mem_singleton.mp hev]
      trivial
  have hin := htimed _ hnext e (hstep ▸ he)
  rw [← hstep] at hin
  exact expireDue_drains le_rfl (hrun es hes).1 _ hin

/-- What the decoder makes of the bytes of an `InterestLifetime`: 64 bits are kept, and the
milliseconds are multiplied to nanoseconds as 64-bit integers. -/
def decodeLifetime (bytes : Bytes) : Time :=
  Int.bmod (readBigEndian bytes % 2 ^ 64 * 1000000) (2 ^ 64)

/-- An Interest arrives from face `9` on New Year 2026, with the bytes of its lifetime. -/
def lifetimeArrival (bytes : Bytes) : ThreadEvent :=
  .interest ⟨{ plainInterest [['a'], ['b']] 7 with lifetime := some (decodeLifetime bytes) }, 9,
    [], none⟩ 1767225600000000000 0 [] []

/-- Every face is there, and there are no routes. -/
def unrouted : List ThreadEvent := [.faceTable (fun _ => some ⟨false, false⟩)]

theorem pit_entries_scheduled_once :
    (threadRun smallThread (unrouted ++ [lifetimeArrival [15, 160]])).pitCS.HasEntry 0
      ∧ (0, 1767225604000000000) ∈ (threadRun smallThread
        (unrouted ++ [lifetimeArrival [15, 160]])).pitCS.pitExpiryQueue
      ∧ ∀ now e, (updatePit smallThread (threadRun smallThread
          (unrouted ++ [lifetimeArrival [15, 160]])) now).pitCS.HasEntry e →
        unixNano now < unixNano ((updatePit smallThread (threadRun smallThread
          (unrouted ++ [lifetimeArrival [15, 160]])) now).pitCS.entries e).expirationTime := by
  refine ⟨by decide +kernel, by decide +kernel, (pit_entries_scheduled smallThread _ ?_).2⟩
  intro ev hev
  simp only [unrouted, cons_append, nil_append, mem_cons, not_mem_nil, or_false] at hev
  rcases hev with rfl | rfl
  · trivial
  · exact (by decide : (0 : Time) < 1767225600000000000 + decodeLifetime [15, 160])

/-- A lifetime of about 521 years wraps to about minus 63 years, so the in-record expires before
the epoch and the timer is never set: the entry is in the PIT and not in the queue, and ten years
later it is still there. -/
theorem wrapped_lifetime_leaks :
    decodeLifetime [0, 0, 14, 245, 78, 86, 149, 237] = -2000000000000551616
      ∧ (threadRun smallThread (unrouted
        ++ [lifetimeArrival [0, 0, 14, 245, 78, 86, 149, 237]])).pitCS.HasEntry 0
      ∧ (threadRun smallThread (unrouted
        ++ [lifetimeArrival [0, 0, 14, 245, 78, 86, 149, 237]])).pitCS.pitExpiryQueue = []
      ∧ (threadRun smallThread (unrouted ++ [lifetimeArrival [0, 0, 14, 245, 78, 86, 149, 237],
        .update 2082844800000000000])).pitCS.HasEntry 0 := by
  decide +kernel

/-! ### An entry outlives its records -/

/-- An entry that is not satisfied expires no earlier than any of its in-records. -/
def Outlives : Prop :=
  entry.satisfied = false → ∀ r ∈ entry.inRecords, r.expirationTime ≤ entry.expirationTime

lemma Outlives.relays {entry entry' : NameTreePitEntry} (h : Outlives entry)
    (hr : EntryRelays entry entry') : Outlives entry' := by
  intro hsat r hin
  rw [hr.rest] at hsat ⊢
  exact h hsat r (hr.inRecords hin)

/-- The condition on an Interest that joins an entry which is not satisfied: no in-record of
another face outlives the one it makes, nor the moment at which it may be served from the content
store. -/
def Succeeds (cfg : TableConfig) (p : PitCsTree) : ThreadEvent → Prop
  | .interest pkt now _ _ _ =>
    ∀ e, p.Joins cfg pkt.interest (forwardingHintOf cfg pkt.interest.forwardingHint) e →
      (p.entries e).satisfied = false → ∀ r ∈ (p.entries e).inRecords,
        r.face ≠ pkt.incomingFaceID → r.expirationTime ≤ pkt.deadline now
          ∧ (cfg.csServe = true → p.Caches cfg pkt.interest.name → r.expirationTime ≤ now)
  | _ => True

lemma entries_prolong_of_ne (hne : e' ≠ e) : (p.prolong e time).entries e' = p.entries e' := by
  unfold prolong
  split_ifs
  exacts [entries_timer_of_ne hne, rfl]

lemma outlives_prolong (h : (p.entries e).satisfied = false →
      ∀ r ∈ (p.entries e).inRecords, r.expirationTime ≤ time) :
    Outlives ((p.prolong e time).entries e) := by
  unfold prolong
  split_ifs with hlt
  · rw [entries_timer, update_self]
    exact h
  · exact fun hsat r hr => (h hsat r hr).trans (not_lt.mp hlt)

section Enters

variable {pkt : InterestPkt} {nonce pick : ℕ} {wish : List Str} {csWish : List ℕ} {q : PitCsTree}
  (hrec : Recorded cfg p pkt e now q)
  (hok : Succeeds cfg p (.interest pkt now pick wish csWish))

include hrec hok

/-- An in-record of another face that the Interest finds expires no later than its own, nor than
`now` if the Interest may be served. -/
lemma Recorded.succeeds {r : PitInRecord} (hsat : (q.entries e).satisfied = false)
    (hr : r ∈ (q.entries e).inRecords) :
    r.face = pkt.incomingFaceID ∧ r.expirationTime = pkt.deadline now
      ∨ r.expirationTime ≤ pkt.deadline now
        ∧ (cfg.csServe = true → p.Caches cfg pkt.interest.name → r.expirationTime ≤ now) := by
  refine (hrec.record r hr).imp_right fun ⟨hface, hold, hsame, hjoins⟩ => ?_
  exact hok e hjoins (hsame ▸ hsat) r hold hface

/-- An Interest that is served leaves only in-records that have expired; else its own in-record
expires last. -/
lemma outlives_enters (hen : Enters cfg pkt nonce e now csWish q p')
    (h : ∀ e, Outlives (p.entries e)) : ∀ e, Outlives (p'.entries e) := by
  intro e'
  cases hen with
  | @served q' index hserve hfound =>
    have huse := sameButUse_findMatchingDataFromCS cfg q pkt.decremented now csWish
    rw [hfound] at huse
    rcases eq_or_ne e' e with rfl | hne
    · obtain ⟨node, hbelow, hat⟩ :=
        findMatchingDataFromCS_csAt (congrArg Prod.snd hfound)
      have hcaches : p.Caches cfg pkt.interest.name := ⟨node, index, hbelow, hrec.csAt _ _ hat⟩
      rw [removeInRecord, onEntry_self, entries_timer, update_self, huse.entries]
      intro hsat r hr
      obtain ⟨hr, hface⟩ := mem_filter.mp hr
      rcases hrec.succeeds hok hsat hr with ⟨hown, -⟩ | ⟨-, hexpired⟩
      · exact absurd hown (of_decide_eq_true hface)
      · exact hexpired hserve hcaches
    · rw [removeInRecord, onEntry_of_ne hne, entries_timer_of_ne hne, huse.entries,
        hrec.others e' hne]
      exact h e'
  | @forwarded q' _ huse hrelays =>
    refine Outlives.relays ?_ (hrelays.entry e')
    rcases eq_or_ne e' e with rfl | hne
    · refine outlives_prolong fun hsat r hr => ?_
      rw [huse.entries] at hsat hr
      rcases hrec.succeeds hok hsat hr with ⟨-, heq⟩ | ⟨hle, -⟩
      exacts [heq.le, hle]
    · rw [entries_prolong_of_ne hne, huse.entries, hrec.others e' hne]
      exact h e'

end Enters

lemma outlives_satisfiesAll {es : List ℕ} (hs : SatisfiesAll now es p p')
    (h : ∀ e, Outlives (p.entries e)) : ∀ e, Outlives (p'.entries e) := by
  induction hs with
  | nil => exact h
  | cons hfirst _ ih =>
    refine ih fun e' => ?_
    cases hfirst with
    | intro hrelays =>
      rename_i e _ _ _ q _
      rcases eq_or_ne e' e with rfl | hne
      · rw [onEntry_self]
        exact nofun
      · rw [onEntry_of_ne hne]
        refine Outlives.relays ?_ (hrelays.entry e')
        rw [entries_timer_of_ne hne]
        exact h e'

lemma outlives_expires (hx : Expires now p p') (hwf : PitWf p) (h : ∀ e, Outlives (p.entries e)) :
    ∀ e, Outlives (p'.entries e) := by
  induction hx with
  | nil => exact h
  | @cons p p' popped hpop _ ih =>
    have hwf' := ((samePit_popExpired hpop).1.grows hwf).wf
    have hpopped : ∀ e, Outlives (popped.2.entries e) := by
      rw [entries_popExpired hpop]
      exact (forall_update_iff _ fun _ => Outlives).mpr ⟨h popped.1, fun e _ => h e⟩
    refine ih (removeInterest_spec hwf').1 ?_
    rw [entries_removeInterest hwf']
    refine (forall_update_iff _ fun _ => Outlives).mpr ⟨fun hsat r hr => ?_, fun e _ => hpopped e⟩
    dsimp only at hr
    split_ifs at hr
    · exact hpopped popped.1 hsat r hr
    · exact absurd hr not_mem_nil

/-- **What one step keeps.** -/
lemma outlives_step {ev : ThreadEvent} (hwf : PitWf p) (hs : PitStep cfg p ev p')
    (hok : Succeeds cfg p ev) (h : ∀ e, Outlives (p.entries e)) :
    ∀ e, Outlives (p'.entries e) := by
  cases hs with
  | relays hrelays => exact fun e => (h e).relays (hrelays.entry e)
  | looped hnonce hinsert =>
    obtain ⟨-, rfl⟩ := insertInterest_looped hwf hinsert
    exact h
  | entered hnonce hinsert henters =>
    exact outlives_enters (recorded_insertPkt hwf hinsert _) hok henters h
  | satisfied hall =>
    refine outlives_satisfiesAll hall ?_
    rw [(entries_admitData cfg p _ _).1]
    exact h
  | expired hexpires => exact outlives_expires hexpires hwf h

/-- **A PIT entry lives at least as long as each unanswered request**, in every run in which no
Interest joins an entry whose in-records of other faces outlive it. -/
theorem pit_entry_outlives_records (cfg : ThreadConfig) (es : List ThreadEvent)
    (hes : Steps.Guarded (threadStep cfg) (fun t ev => Succeeds cfg.table t.pitCS ev) .new es)
    (e : ℕ) (hsat : ((threadRun cfg es).pitCS.entries e).satisfied = false) :
    ∀ r ∈ ((threadRun cfg es).pitCS.entries e).inRecords,
      r.expirationTime ≤ ((threadRun cfg es).pitCS.entries e).expirationTime := by
  have hrun := pit_invariant (I := fun p => ∀ e, Outlives (p.entries e)) (Succeeds cfg.table)
    (fun p ev p' hwf hs hok h => outlives_step hwf hs hok h)
    (fun _ _ r hr => absurd hr not_mem_nil) hes
  exact hrun.2 e hsat

/-- An Interest arrives from a face, with a nonce and a lifetime. -/
def requestArrival (face : Face) (nonce : ℕ) (lifetime now : Time) : ThreadEvent :=
  .interest ⟨{ plainInterest [['a'], ['b']] nonce with lifetime := some lifetime }, face, [],
    none⟩ now 0 [] []

/-- Faces `9` and `8` ask for the same name, and the second request expires later. -/
def twoRequests : List ThreadEvent :=
  unrouted ++ [requestArrival 9 7 4000000000 0, requestArrival 8 6 4000000000 1000000000]

theorem pit_entry_outlives_records_two :
    ((threadRun smallThread twoRequests).pitCS.entries 0).inRecords.map (·.expirationTime)
        = [4000000000, 5000000000]
      ∧ ∀ r ∈ ((threadRun smallThread twoRequests).pitCS.entries 0).inRecords,
        r.expirationTime
          ≤ ((threadRun smallThread twoRequests).pitCS.entries 0).expirationTime := by
  refine ⟨by decide +kernel, pit_entry_outlives_records smallThread twoRequests ?_ 0
    (by decide +kernel)⟩
  -- an entry that is joined is one of those made so far
  have hlt : ∀ es pkt e, (threadRun smallThread es).pitCS.Joins smallThread.table pkt none e →
      e < (threadRun smallThread es).pitCS.made := fun es pkt e hjoins =>
    (pitWf_threadRun.notMem_pool (pitWf_threadRun.hasEntry_iff.mpr ⟨_, hjoins.node⟩)).1
  refine ⟨trivial, fun e hjoins => ?_, fun e hjoins _ r hr _ => ?_, trivial⟩
  · exact absurd (hlt unrouted _ e hjoins) (Nat.not_lt_zero e)
  · have hmade : (threadRun smallThread
        (unrouted ++ [requestArrival 9 7 4000000000 0])).pitCS.made = 1 := by decide +kernel
    obtain rfl : e = 0 := Nat.lt_one_iff.mp (hmade ▸ hlt _ _ e hjoins)
    have hfirst : ∀ r ∈ ((threadRun smallThread (unrouted
        ++ [requestArrival 9 7 4000000000 0])).pitCS.entries 0).inRecords,
        r.expirationTime ≤ 5000000000 := by decide +kernel
    exact ⟨hfirst r hr, fun hserve => Bool.noConfusion hserve⟩

/-- Face `9` asks for a name for ten seconds, and a second later face `8` does so for one second.
The entry then expires after two seconds, while the in-record of face `9` is good for ten, and
`Update` removes it after three. -/
theorem short_request_cuts_entry :
    let run := threadRun smallThread
      (unrouted ++ [requestArrival 9 7 10000000000 0, requestArrival 8 6 1000000000 1000000000])
    run.pitCS.HasEntry 0 ∧ (run.pitCS.entries 0).satisfied = false
      ∧ (run.pitCS.entries 0).inRecords.map (fun r => (r.face, r.expirationTime))
        = [(9, 10000000000), (8, 2000000000)]
      ∧ (run.pitCS.entries 0).expirationTime = 2000000000
      ∧ ¬(updatePit smallThread run 3000000000).pitCS.HasEntry 0 := by
  decide +kernel

end Mars
