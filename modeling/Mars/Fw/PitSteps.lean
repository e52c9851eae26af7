import Mars.Fw.Thread
import Mars.Table.Insertion

/-!
What an event of a thread does to its PIT.

The pipelines send packets, and to send is to remove in-records and to add out-records.  Apart
from that an Interest enters its entry, a Data packet satisfies entries, and `Update` expires
them.  Each function of the pipelines is looked at once, for the table, the calls of the strategy
and the packets alike.

* `TokenFrom`, `SentFrom`: where the tokens of packets come from;
* `Relays`: the table has only lost in-records and gained out-records; `Sends`: so has the table
  of the thread, and nothing else has changed; `Forwards`: so has it for Interests and NACKs;
* `Calls`: the strategy is called at most once; `Serves`, `ServesEntry`: what it then does;
* `Enters`: the steps of an Interest, `Admits`: with what is called and sent; `Satisfies`,
  `SatisfiesAll`: the steps of a Data packet; `Expires`: those of `Update`;
* `InterestCase`: how an Interest is handled;
* `PitStep`, `pitStep_threadStep`: every event is one of these; `PitStep.grows`: only `Update` takes
  an entry away; `pit_invariant`: so what the steps keep holds in every run, and `PitWf` is kept.
-/

namespace Mars

open Function List PitCsTree

variable {cfg : ThreadConfig} {t t' t'' : Thread} {p p' p'' : PitCsTree} {now : Time}
  {e e' nonce : ℕ} {inFace : Face} {pkt : InterestPkt} {packet : FwInterest} {data : FwData}
  {records : List PitInRecord} {P P' : OutPkt → Prop} {ok ok' : FwInterest → ℕ → Prop}

/-! ### What is sent -/

/-- The face that a packet is handed to. -/
def OutPkt.nexthop : OutPkt → Face
  | .interest _ nexthop _ _ | .data _ _ nexthop _ _ | .nack _ nexthop _ _ _ => nexthop

/-- The token of a packet that is handed to a face. -/
def OutPkt.pitToken : OutPkt → Bytes
  | .interest _ _ _ pitToken | .data _ _ _ _ pitToken | .nack _ _ _ _ pitToken => pitToken

/-- An in-record has the face and the token of the packet. -/
def OutPkt.HasRecord (records : List PitInRecord) (out : OutPkt) : Prop :=
  ∃ r ∈ records, r.face = out.nexthop ∧ r.pitToken = out.pitToken

/-- An Interest, with a token that the thread makes. -/
def OutPkt.Made (threadID : ℕ) (out : OutPkt) : Prop :=
  ∃ packet nexthop inFace token, out = .interest packet nexthop inFace (makePitToken threadID token)

/-- Where the token of a packet comes from. -/
inductive TokenFrom (threadID : ℕ) (records : List PitInRecord) : OutPkt → Prop
  | interest {out : OutPkt} (h : out.Made threadID) : TokenFrom threadID records out
  | record {out : OutPkt} (h : out.HasRecord records) : TokenFrom threadID records out
  | made {packet : FwInterest} {nexthop inFace : Face} {reason : ℕ} (token : ℕ)
      (h : ∀ r, records.find? (·.face = nexthop) = some r → r.pitToken = []) :
      TokenFrom threadID records (.nack packet nexthop inFace reason (makePitToken threadID token))

/-- The tokens of the packets come from there. -/
def SentFrom (threadID : ℕ) (records : List PitInRecord) (sent : List OutPkt) : Prop :=
  ∀ out ∈ sent, TokenFrom threadID records out

lemma sentFrom_nil : SentFrom cfg.threadID records [] := fun _ hout => absurd hout not_mem_nil

lemma sentFrom_outgoingNack {nexthop : Face} {reason : ℕ} :
    SentFrom cfg.threadID (t.pitCS.entries e).inRecords
      (outgoingNack cfg t packet e nexthop inFace reason) := by
  simp only [outgoingNack]
  split
  · exact sentFrom_nil
  · split_ifs
    · exact sentFrom_nil
    · intro out hout
      rw [mem_singleton.mp hout]
      split
      · rename_i r hfind
        have hface : r.face = nexthop := by simpa using find?_some hfind
        split_ifs with htoken
        · refine .made _ fun r' hfind' => ?_
          rwa [← Option.some.inj (hfind.symm.trans hfind')]
        · exact .record ⟨r, mem_of_find?_eq_some hfind, hface, rfl⟩
      · rename_i hfind
        exact .made _ fun r' hfind' => by cases hfind.symm.trans hfind'

lemma outgoingData_goes {flags : Option (Bool × Bool)} {nexthop : Face} {pitToken : Bytes} :
    ∀ out ∈ outgoingData t data flags nexthop pitToken inFace,
      out.nexthop = nexthop ∧ out.pitToken = pitToken := by
  intro out hout
  unfold outgoingData at hout
  split at hout
  · exact absurd hout not_mem_nil
  · split_ifs at hout
    · exact absurd hout not_mem_nil
    · rw [mem_singleton.mp hout]
      exact ⟨rfl, rfl⟩

/-- The token of the in-record goes with the Data. -/
lemma hasRecord_sendData {flags : Option (Bool × Bool)} {nexthop : Face}
    (hin : ∃ r ∈ (t.pitCS.entries e).inRecords, r.face = nexthop) :
    ∀ out ∈ (sendData t data flags e nexthop inFace).2,
      out.HasRecord (t.pitCS.entries e).inRecords := by
  unfold sendData
  split
  · rename_i hnone
    obtain ⟨r, hr, rfl⟩ := hin
    exact absurd hr (by simpa using find?_eq_none.mp hnone r)
  · rename_i r hfind
    intro out hout
    obtain ⟨hnexthop, htoken⟩ := outgoingData_goes out hout
    have hface : r.face = nexthop := by simpa using find?_some hfind
    exact ⟨r, mem_of_find?_eq_some hfind, hface.trans hnexthop.symm, htoken.symm⟩

/-! ### Sending -/

/-- An entry has lost in-records and gained out-records, and is otherwise the same. -/
structure EntryRelays (entry entry' : NameTreePitEntry) : Prop where
  inRecords : entry'.inRecords ⊆ entry.inRecords
  rest : entry' = { entry with inRecords := entry'.inRecords, outRecords := entry'.outRecords }

/-- All entries of a table have, and the table is otherwise the same. -/
structure Relays (p p' : PitCsTree) : Prop where
  table : p' = { p with entries := p'.entries }
  entry : ∀ e, EntryRelays (p.entries e) (p'.entries e)

lemma EntryRelays.refl {entry : NameTreePitEntry} : EntryRelays entry entry :=
  ⟨List.Subset.refl _, rfl⟩

lemma Relays.refl (p : PitCsTree) : Relays p p := ⟨rfl, fun _ => .refl⟩

lemma Relays.trans (h : Relays p p') (h' : Relays p' p'') : Relays p p'' where
  table := by
    rw [h'.table, h.table]
  entry := fun e => by
    refine ⟨List.Subset.trans (h'.entry e).inRecords (h.entry e).inRecords, ?_⟩
    rw [(h'.entry e).rest, (h.entry e).rest]

lemma onEntry_of_ne (hne : e' ≠ e) (f : NameTreePitEntry → NameTreePitEntry) :
    (p.onEntry e f).entries e' = p.entries e' := update_of_ne hne _ _

lemma onEntry_self (p : PitCsTree) (e : ℕ) (f : NameTreePitEntry → NameTreePitEntry) :
    (p.onEntry e f).entries e = f (p.entries e) := update_self _ _ _

lemma relays_onEntry {f : NameTreePitEntry → NameTreePitEntry}
    (hf : EntryRelays (p.entries e) (f (p.entries e))) : Relays p (p.onEntry e f) where
  table := rfl
  entry := (forall_update_iff p.entries fun e' entry => EntryRelays (p.entries e') entry).mpr
    ⟨hf, fun _ _ => .refl⟩

lemma Relays.samePit (h : Relays p p') : SamePit p p' where
  tree := by rw [h.table]
  pool := by rw [h.table]
  made := by rw [h.table]
  home := fun e => by
    rw [(h.entry e).rest]
    exact ⟨rfl, rfl⟩

/-- The thread has sent packets. -/
structure Sends (t t' : Thread) : Prop where
  thread : t' = { t with pitCS := t'.pitCS }
  relays : Relays t.pitCS t'.pitCS

lemma Sends.refl : Sends t t := ⟨rfl, .refl _⟩

lemma Sends.trans (h : Sends t t') (h' : Sends t' t'') : Sends t t'' :=
  ⟨by rw [h'.thread, h.thread], h.relays.trans h'.relays⟩

lemma Sends.node (h : Sends t t') : t'.node = t.node := by rw [h.thread]

/-- What each thing keeps, all of them keep. -/
lemma each_invariant {β : Type*} {f : Thread → β → Thread × List OutPkt} {I : Thread → Prop}
    (hf : ∀ t b, I t → I (f t b).1) {bs : List β} (h : I t) : I (Thread.each f bs t).1 := by
  induction bs generalizing t with
  | nil => exact h
  | cons b bs ih => exact ih (hf t b h)

/-- What is sent one after another is sent for one of the things, by a thread that has what each
of them keeps. -/
lemma mem_each {β : Type*} {f : Thread → β → Thread × List OutPkt} {I : Thread → Prop}
    (hf : ∀ t b, I t → I (f t b).1) {bs : List β} (h : I t) :
    ∀ out ∈ (Thread.each f bs t).2, ∃ b ∈ bs, ∃ t', I t' ∧ out ∈ (f t' b).2 := by
  induction bs generalizing t with
  | nil => exact fun out hout => absurd hout not_mem_nil
  | cons b bs ih =>
    intro out hout
    rcases mem_append.mp hout with hout | hout
    · exact ⟨b, mem_cons_self, t, h, hout⟩
    · obtain ⟨b', hb', hsent⟩ := ih (hf t b h) out hout
      exact ⟨b', mem_cons_of_mem b hb', hsent⟩

lemma sends_each {β : Type*} {f : Thread → β → Thread × List OutPkt}
    (hf : ∀ t b, Sends t (f t b).1) (bs : List β) (t : Thread) :
    Sends t (Thread.each f bs t).1 :=
  each_invariant (fun t' b h => h.trans (hf t' b)) .refl

/-- Interests and NACKs that meet `P` have been sent, which leaves the in-records. -/
structure Forwards (P : OutPkt → Prop) (t : Thread) (r : Thread × List OutPkt) : Prop where
  sends : Sends t r.1
  inRecords : ∀ e, (r.1.pitCS.entries e).inRecords = (t.pitCS.entries e).inRecords
  sent : ∀ out ∈ r.2, P out

lemma Forwards.nil : Forwards P t (t, []) :=
  ⟨.refl, fun _ => rfl, fun _ hout => absurd hout not_mem_nil⟩

lemma Forwards.mono {r : Thread × List OutPkt} (h : Forwards P t r)
    (hP : ∀ out, P out → P' out) : Forwards P' t r :=
  ⟨h.sends, h.inRecords, fun out hout => hP out (h.sent out hout)⟩

lemma forwards_each {β : Type*} {f : Thread → β → Thread × List OutPkt}
    (hf : ∀ t' b, (∀ e, (t'.pitCS.entries e).inRecords = (t.pitCS.entries e).inRecords) →
      Forwards P t' (f t' b)) {bs : List β} : Forwards P t (Thread.each f bs t) := by
  let I (t' : Thread) : Prop :=
    Sends t t' ∧ ∀ e, (t'.pitCS.entries e).inRecords = (t.pitCS.entries e).inRecords
  have hstep : ∀ t' b, I t' → I (f t' b).1 := fun t' b h =>
    have hb := hf t' b h.2
    ⟨h.1.trans hb.sends, fun e => (hb.inRecords e).trans (h.2 e)⟩
  have hstart : I t := ⟨.refl, fun _ => rfl⟩
  have hall : I (Thread.each f bs t).1 := each_invariant hstep hstart
  refine ⟨hall.1, hall.2, fun out hout => ?_⟩
  obtain ⟨b, -, t', hkept, hout⟩ := mem_each hstep hstart out hout
  exact (hf t' b hkept.2).sent out hout

lemma forwards_outgoingInterest (t : Thread) (packet : FwInterest) (e : ℕ) (nexthop inFace : Face)
    (now : Time) :
    let r := outgoingInterest cfg t packet e nexthop inFace now
    Forwards (OutPkt.Made cfg.threadID) t (r.1, r.2.2) := by
  have hrecord : EntryRelays (t.pitCS.entries e)
        ((t.pitCS.entries e).insertOutRecord packet nexthop now)
      ∧ ((t.pitCS.entries e).insertOutRecord packet nexthop now).inRecords
        = (t.pitCS.entries e).inRecords := by
    simp only [NameTreePitEntry.insertOutRecord]
    split_ifs <;> exact ⟨⟨List.Subset.refl _, rfl⟩, rfl⟩
  unfold outgoingInterest
  split
  · exact .nil
  · split_ifs
    · exact .nil
    · exact .nil
    · exact ⟨⟨rfl, relays_onEntry (f := (·.insertOutRecord packet nexthop now)) hrecord.1⟩,
        (forall_update_iff t.pitCS.entries fun e entry =>
          entry.inRecords = (t.pitCS.entries e).inRecords).mpr ⟨hrecord.2, fun _ _ => rfl⟩,
        fun out hout => ⟨_, _, _, _, mem_singleton.mp hout⟩⟩

lemma forwards_sendQueued (t : Thread) (a : NodeAction) :
    Forwards (OutPkt.Made cfg.threadID) t (sendQueued cfg now t a) := by
  unfold sendQueued
  split
  exacts [forwards_outgoingInterest t _ _ _ _ now, .nil]

lemma forwards_queued {as : List NodeAction} :
    Forwards (OutPkt.Made cfg.threadID) t (Thread.each (sendQueued cfg now) as t) :=
  forwards_each fun t' a _ => forwards_sendQueued t' a

lemma forwards_sendForInterest (t : Thread) (a : NodeAction) :
    Forwards (TokenFrom cfg.threadID (t.pitCS.entries e).inRecords) t
      (sendForInterest cfg packet e now t a) := by
  unfold sendForInterest
  split
  · exact ⟨.refl, fun _ => rfl, sentFrom_outgoingNack⟩
  · exact ⟨.refl, fun _ => rfl, sentFrom_outgoingNack⟩
  · exact (forwards_outgoingInterest t packet e _ _ now).mono fun _ => .interest
  · exact (forwards_sendQueued t _).mono fun _ => .interest

lemma forwards_bestRoutePass (cfg : ThreadConfig) (packet : FwInterest) (e : ℕ) (inFace : Face)
    (now : Time) (first : Bool) (hops : List FibNextHopEntry) (t : Thread) :
    let r := bestRoutePass cfg packet e inFace now first hops t
    Forwards (OutPkt.Made cfg.threadID) t (r.1, r.2.2) := by
  induction hops with
  | nil => exact .nil
  | cons nh hops ih =>
    have hsend : Forwards (OutPkt.Made cfg.threadID) t _ :=
      forwards_outgoingInterest t packet e nh.nexthop inFace now
    simp only [bestRoutePass]
    split
    · split_ifs
      exacts [hsend, ih]
    · split_ifs
      exacts [hsend, ih, .nil, ih]

lemma forwards_bestRoute {nexthops : List FibNextHopEntry} :
    Forwards (OutPkt.Made cfg.threadID) t
      (handleBestRouteInterest cfg t packet e inFace nexthops now) := by
  simp only [handleBestRouteInterest]
  generalize nexthops.mergeSort _ = hops
  have hpass first := forwards_bestRoutePass cfg packet e inFace now first hops
  split_ifs
  · exact hpass true t
  · have hfirst := hpass true t
    have hsecond := hpass false (bestRoutePass cfg packet e inFace now true hops t).1
    exact ⟨hfirst.sends.trans hsecond.sends,
      fun e => (hsecond.inRecords e).trans (hfirst.inRecords e), hsecond.sent⟩

/-- The in-record of a face is removed, if there is one. -/
def PitCsTree.removeInRecord (p : PitCsTree) (e : ℕ) (face : Face) : PitCsTree :=
  p.onEntry e fun entry => { entry with inRecords := entry.inRecords.filter (·.face ≠ face) }

lemma sendData_fst {data : FwData} {flags : Option (Bool × Bool)} {nexthop : Face} :
    (sendData t data flags e nexthop inFace).1
      = { t with pitCS := t.pitCS.removeInRecord e nexthop } := by
  unfold sendData
  split
  · rename_i hnone
    have hall : (t.pitCS.entries e).inRecords.filter (·.face ≠ nexthop)
        = (t.pitCS.entries e).inRecords := by
      rw [List.filter_eq_self]
      simpa using List.find?_eq_none.mp hnone
    have hsame : t.pitCS.removeInRecord e nexthop = t.pitCS := by
      unfold removeInRecord onEntry
      dsimp only
      rw [hall, update_eq_self]
    rw [hsame]
  · rfl

lemma relays_removeInRecord {face : Face} : Relays p (p.removeInRecord e face) :=
  relays_onEntry ⟨List.filter_subset_self _, rfl⟩

lemma sends_sendData (t : Thread) (data : FwData) (flags : Option (Bool × Bool)) (e : ℕ)
    (nexthop inFace : Face) : Sends t (sendData t data flags e nexthop inFace).1 := by
  rw [sendData_fst]
  exact ⟨rfl, relays_removeInRecord⟩

lemma sends_sendForData (data : FwData) (e : ℕ) (t : Thread) (a : NodeAction) :
    Sends t (sendForData data e t a).1 := by
  unfold sendForData
  split
  · exact sends_sendData t _ _ _ _ _
  · exact sends_sendData t _ _ _ _ _
  · exact .refl

/-! ### The strategies -/

/-- The strategy is called at most once, and a DT Interest that it is called for is `ok` with its
PIT entry. -/
def Calls (cfg : ThreadConfig) (ok : FwInterest → ℕ → Prop) (node node' : Node) : Prop :=
  node' = node ∨ ∃ ev, node' = nodeStep cfg.node node ev ∧ ∀ packet e inFace nexthops now wish,
    ev = .dtInterest cfg.threadID packet e inFace nexthops now wish → ok packet e

lemma Calls.mono {node node' : Node} (h : Calls cfg ok node node')
    (hok : ∀ packet e, ok packet e → ok' packet e) : Calls cfg ok' node node' :=
  h.imp_right fun ⟨ev, hev, h⟩ => ⟨ev, hev, fun _ _ _ _ _ _ he => hok _ _ (h _ _ _ _ _ _ he)⟩

/-- The strategy has been called, and packets have been sent. -/
structure Serves (cfg : ThreadConfig) (ok : FwInterest → ℕ → Prop) (t t' : Thread) : Prop where
  relays : Relays t.pitCS t'.pitCS
  calls : Calls cfg ok t.node t'.node

/-- So it has for an Interest or a NACK of the entry `e`: the tokens of the packets come from its
in-records. -/
structure ServesEntry (cfg : ThreadConfig) (ok : FwInterest → ℕ → Prop) (e : ℕ) (t : Thread)
    (r : Thread × List OutPkt) : Prop extends Serves cfg ok t r.1 where
  sent : SentFrom cfg.threadID (t.pitCS.entries e).inRecords r.2

lemma Sends.serves (h : Sends t t') : Serves cfg ok t t' := ⟨h.relays, .inl h.node⟩

lemma Forwards.serves {r : Thread × List OutPkt} (h : Forwards (OutPkt.Made cfg.threadID) t r) :
    ServesEntry cfg ok e t r :=
  ⟨h.sends.serves, fun out hout => .interest (h.sent out hout)⟩

section handle

variable {ev : NodeEvent} (hok : ∀ packet e inFace nexthops now wish,
  ev = .dtInterest cfg.threadID packet e inFace nexthops now wish → ok packet e)
include hok

/-- A handler of the strategy runs, and what it sends is sent. -/
lemma serves_handle {send : Thread → NodeAction → Thread × List OutPkt}
    (hsend : ∀ t a, Sends t (send t a).1) : Serves cfg ok t (t.handle cfg ev send).1 :=
  have h := sends_each hsend _ { t with node := nodeStep cfg.node t.node ev }
  ⟨h.relays, .inr ⟨ev, h.node, hok⟩⟩

lemma servesEntry_handle :
    ServesEntry cfg ok e t (t.handle cfg ev (sendForInterest cfg packet e now)) := by
  have h : Forwards (TokenFrom cfg.threadID (t.pitCS.entries e).inRecords)
      { t with node := nodeStep cfg.node t.node ev }
      (t.handle cfg ev (sendForInterest cfg packet e now)) :=
    forwards_each fun t' a hsame => hsame e ▸ forwards_sendForInterest t' a
  exact ⟨serves_handle hok fun t a => (forwards_sendForInterest t a).sends, h.sent⟩

end handle

/-- A call for this packet and this entry, which is a DT Interest. -/
def DtCall (packet : FwInterest) (e : ℕ) (packet' : FwInterest) (e' : ℕ) : Prop :=
  packetType packet.name = .dt ∧ packet' = packet ∧ e' = e

lemma serves_afterReceiveInterest {nexthops : List FibNextHopEntry} {wish : List Str} :
    ServesEntry cfg (DtCall packet e) e t
      (afterReceiveInterest cfg t packet e inFace nexthops now wish) := by
  unfold afterReceiveInterest
  split
  · exact forwards_queued.serves
  · split_ifs
    exacts [Forwards.nil.serves, forwards_queued.serves]
  · exact servesEntry_handle (by rintro _ _ _ _ _ _ ⟨⟩)
  · rename_i _ htype
    refine servesEntry_handle ?_
    rintro _ _ _ _ _ _ ⟨⟩
    exact ⟨htype, rfl, rfl⟩
  · exact forwards_bestRoute.serves

lemma serves_afterReceiveNack (ok : FwInterest → ℕ → Prop) {nackReason : ℕ} :
    ServesEntry cfg ok e t (afterReceiveNack cfg t packet e inFace nackReason now) := by
  unfold afterReceiveNack
  split
  · exact servesEntry_handle (by rintro _ _ _ _ _ _ ⟨⟩)
  · exact servesEntry_handle (by rintro _ _ _ _ _ _ ⟨⟩)
  · refine ⟨Sends.refl.serves, fun out hout => ?_⟩
    obtain ⟨faceID, -, hout⟩ := mem_flatMap.mp hout
    exact sentFrom_outgoingNack out hout

lemma serves_afterReceiveData (ok : FwInterest → ℕ → Prop) :
    Serves cfg ok t (afterReceiveData cfg t data e inFace now).1 := by
  unfold afterReceiveData
  split
  · exact serves_handle (by rintro _ _ _ _ _ _ ⟨⟩) (sends_sendForData data e)
  · exact (sends_each (fun t face => sends_sendData t data none e face inFace) _ t).serves

lemma serves_tick (ok : FwInterest → ℕ → Prop) {wish : List Str} :
    Serves cfg ok t (t.handle cfg (.tick cfg.threadID now wish) (sendQueued cfg now)).1 :=
  serves_handle (by rintro _ _ _ _ _ _ ⟨⟩) fun t a => (forwards_sendQueued t a).sends

/-! ### An Interest enters the PIT -/

/-- The Interest of a packet with its hop limit counted down. -/
def InterestPkt.decremented (pkt : InterestPkt) : FwInterest :=
  { pkt.interest with hopLimit := pkt.interest.hopLimit.map (· - 1) }

/-- `InsertInterest`, as `processIncomingInterest` calls it. -/
def PitCsTree.insertPkt (cfg : TableConfig) (p : PitCsTree) (pkt : InterestPkt) (nonce pick : ℕ) :
    PitCsTree × ℕ × Bool :=
  p.insertInterest cfg pkt.decremented nonce (forwardingHintOf cfg pkt.interest.forwardingHint)
    pkt.incomingFaceID pick

/-- When the in-record of a packet expires. -/
def InterestPkt.deadline (pkt : InterestPkt) (now : Time) : Time :=
  now + pkt.interest.lifetime.getD defaultLifetime

/-- The table when the in-record of a packet has been inserted. -/
def PitCsTree.recordPkt (p : PitCsTree) (pkt : InterestPkt) (nonce e : ℕ) (now : Time) :
    PitCsTree :=
  p.onEntry e fun entry =>
    (entry.insertInRecord pkt.decremented nonce pkt.incomingFaceID pkt.pitToken now).1

/-- The timer of the entry is set, unless it runs at least as long already. -/
def PitCsTree.prolong (p : PitCsTree) (e : ℕ) (time : Time) : PitCsTree :=
  if (p.entries e).expirationTime < time then p.updateExpirationTimer e time else p

/-- The recency of the content store has changed, and nothing else. -/
structure SameButUse (p p' : PitCsTree) : Prop where
  table : p' = { p with csQueue := p'.csQueue, csLocations := p'.csLocations }

lemma SameButUse.refl : SameButUse p p := ⟨rfl⟩

lemma SameButUse.entries (h : SameButUse p p') : p'.entries = p.entries := by rw [h.table]

lemma sameButUse_findMatchingDataFromCS (cfg : TableConfig) (p : PitCsTree)
    (interest : FwInterest) (now : Time) (wish : List ℕ) :
    SameButUse p (p.findMatchingDataFromCS cfg interest now wish).1 := by
  unfold findMatchingDataFromCS
  split
  · exact .refl
  · split_ifs
    · exact .refl
    · split
      · exact .refl
      · exact ⟨rfl⟩

/-- The table when an Interest that is no loop has been handled: it is served from the content
store, or its entry lives on for its lifetime and it is passed to the strategy. -/
inductive Enters (cfg : TableConfig) (pkt : InterestPkt) (nonce e : ℕ) (now : Time)
    (wish : List ℕ) (p : PitCsTree) : PitCsTree → Prop
  | served {p' : PitCsTree} (index : ℕ) (hserve : cfg.csServe = true)
      (hfound : p.findMatchingDataFromCS cfg pkt.decremented now wish = (p', some index)) :
      Enters cfg pkt nonce e now wish p
        ((p'.updateExpirationTimer e now).removeInRecord e pkt.incomingFaceID)
  | forwarded {p' p'' : PitCsTree} (huse : SameButUse p p')
      (hrelays : Relays (p'.prolong e (pkt.deadline now)) p'') :
      Enters cfg pkt nonce e now wish p p''

lemma insertInRecord_deadline (entry : NameTreePitEntry) (pkt : InterestPkt) (nonce : ℕ)
    (now : Time) :
    (entry.insertInRecord pkt.decremented nonce pkt.incomingFaceID pkt.pitToken
      now).2.1.expirationTime = pkt.deadline now := by
  simp only [NameTreePitEntry.insertInRecord]
  split <;> rfl

lemma inRecords_timer (time : Time) :
    ((p.updateExpirationTimer e time).entries e).inRecords = (p.entries e).inRecords := by
  unfold updateExpirationTimer
  split_ifs <;> simp [onEntry]

lemma inRecords_prolong (time : Time) :
    ((p.prolong e time).entries e).inRecords = (p.entries e).inRecords := by
  unfold prolong
  split_ifs
  exacts [inRecords_timer _, rfl]

lemma serves_forwardInterest (cfg : ThreadConfig) (t : Thread) (pkt : InterestPkt)
    (packet : FwInterest) (incoming : FaceInfo) (hint : Option Name) (e : ℕ)
    (inRecord : PitInRecord) (now : Time) (wish : List Str) :
    ServesEntry cfg (DtCall packet e) e
      { t with pitCS := t.pitCS.prolong e inRecord.expirationTime }
      (forwardInterest cfg t pkt packet incoming hint e inRecord now wish) := by
  have htimed : (if (t.pitCS.entries e).expirationTime < inRecord.expirationTime then
      { t with pitCS := t.pitCS.updateExpirationTimer e inRecord.expirationTime } else t)
      = { t with pitCS := t.pitCS.prolong e inRecord.expirationTime } := by
    unfold prolong
    split_ifs <;> rfl
  simp only [forwardInterest, htimed]
  split
  · split_ifs
    exacts [(forwards_outgoingInterest _ _ _ _ _ _).serves, Forwards.nil.serves]
  · exact serves_afterReceiveInterest

/-- The incoming face has a record. -/
lemma exists_insertInRecord {entry : NameTreePitEntry} {interest : FwInterest} {nonce : ℕ}
    {face : Face} {pitToken : Bytes} {now : Time} :
    ∃ r ∈ (entry.insertInRecord interest nonce face pitToken now).1.inRecords, r.face = face := by
  simp only [NameTreePitEntry.insertInRecord]
  split
  · exact ⟨_, mem_append_right _ (mem_singleton_self _), rfl⟩
  · rename_i previous hprevious
    have hprevious' : previous.face = face := by simpa using find?_some hprevious
    refine ⟨_, mem_map_of_mem (mem_of_find?_eq_some hprevious), ?_⟩
    rw [if_pos hprevious']

/-- An Interest that is no loop has been handled. -/
structure Admits (cfg : ThreadConfig) (pkt : InterestPkt) (nonce e : ℕ) (now : Time)
    (csWish : List ℕ) (t : Thread) (r : Thread × List OutPkt) : Prop where
  enters : Enters cfg.table pkt nonce e now csWish (t.pitCS.recordPkt pkt nonce e now) r.1.pitCS
  calls : Calls cfg (DtCall pkt.decremented e) t.node r.1.node
  sent : SentFrom cfg.threadID ((t.pitCS.recordPkt pkt nonce e now).entries e).inRecords r.2

lemma admits_admitInterest (cfg : ThreadConfig) (t : Thread) (pkt : InterestPkt) (nonce : ℕ)
    (incoming : FaceInfo) (hint : Option Name) (e : ℕ) (now : Time) (wish : List Str)
    (csWish : List ℕ) :
    Admits cfg pkt nonce e now csWish t
      (admitInterest cfg t pkt pkt.decremented nonce incoming hint e now wish csWish) := by
  have hdeadline := insertInRecord_deadline (t.pitCS.entries e) pkt nonce now
  have hin : ∃ r ∈ ((t.pitCS.recordPkt pkt nonce e now).entries e).inRecords,
      r.face = pkt.incomingFaceID := by
    rw [recordPkt, onEntry_self]
    exact exists_insertInRecord
  simp only [admitInterest]
  set inserted := (t.pitCS.entries e).insertInRecord pkt.decremented nonce pkt.incomingFaceID
    pkt.pitToken now
  have huse := sameButUse_findMatchingDataFromCS cfg.table (t.pitCS.recordPkt pkt nonce e now)
    pkt.decremented now csWish
  have hforward : ∀ t' : Thread, t'.node = t.node →
      SameButUse (t.pitCS.recordPkt pkt nonce e now) t'.pitCS →
      Admits cfg pkt nonce e now csWish t
        (forwardInterest cfg t' pkt pkt.decremented incoming hint e inserted.2.1 now wish) := by
    intro t' hnode huse'
    obtain ⟨⟨hrelays, hcalls⟩, hsent⟩ := serves_forwardInterest cfg t' pkt pkt.decremented incoming
      hint e inserted.2.1 now wish
    rw [inRecords_prolong, huse'.entries] at hsent
    rw [hdeadline] at hrelays
    exact ⟨.forwarded huse' hrelays, hnode ▸ hcalls, hsent⟩
  split
  · exact hforward _ rfl .refl
  · split_ifs with hserve
    · split
      · rename_i csEntry hfound
        obtain ⟨index, hindex, -⟩ := Option.bind_eq_some_iff.mp hfound
        refine ⟨?_, .inl (sends_sendData _ _ _ _ _ _).node, fun out hout => .record ?_⟩
        · rw [sendData_fst]
          exact .served index hserve (Prod.ext rfl hindex)
        · rw [← huse.entries, ← inRecords_timer now] at hin ⊢
          exact hasRecord_sendData hin out hout
      · exact hforward _ rfl huse
    · exact hforward _ rfl .refl

/-! ### A Data packet satisfies entries -/

/-- The entry has been satisfied at `now`: its timer has run out, and its records are gone once
packets have been sent. -/
inductive Satisfies (now : Time) (e : ℕ) (p : PitCsTree) : PitCsTree → Prop
  | intro {p' : PitCsTree} (hrelays : Relays (p.updateExpirationTimer e now) p') :
      Satisfies now e p (p'.onEntry e fun entry =>
        { entry with satisfied := true, inRecords := [], outRecords := [] })

/-- Some entries have been satisfied, one after another. -/
inductive SatisfiesAll (now : Time) : List ℕ → PitCsTree → PitCsTree → Prop
  | nil (p : PitCsTree) : SatisfiesAll now [] p p
  | cons {e : ℕ} {es : List ℕ} {p p' p'' : PitCsTree} (hfirst : Satisfies now e p p')
      (hrest : SatisfiesAll now es p' p'') : SatisfiesAll now (e :: es) p p''

lemma satisfies_satisfyEntry (cfg : ThreadConfig)
    (hrelays : Relays (p.updateExpirationTimer e now) t.pitCS) (name : Name) (nonces : ℕ) :
    Satisfies now e p (satisfyEntry cfg t name e nonces now).pitCS := by
  have hcleared : (satisfyEntry cfg t name e nonces now).pitCS
      = t.pitCS.onEntry e fun entry =>
        { entry with satisfied := true, inRecords := [], outRecords := [] } := by
    simp [satisfyEntry, Thread.onEntry, onEntry]
  rw [hcleared]
  exact .intro hrelays

lemma satisfiesAll_each (cfg : ThreadConfig) (data : FwData) (inFace : Face) (first : ℕ)
    (now : Time) (es : List ℕ) (t : Thread) :
    SatisfiesAll now es t.pitCS
      (Thread.each (satisfyEach cfg data inFace first now) es t).1.pitCS := by
  induction es generalizing t with
  | nil => exact .nil _
  | cons e es ih => exact .cons (satisfies_satisfyEntry cfg (.refl _) data.name first) (ih _)

/-! ### Every event -/

/-- `Update` has taken entries that are due out of the expiry queue and out of the PIT. -/
inductive Expires (now : Time) : PitCsTree → PitCsTree → Prop
  | nil (p : PitCsTree) : Expires now p p
  | cons {p p' : PitCsTree} {popped : ℕ × PitCsTree} (hpop : p.popExpired now = some popped)
      (hrest : Expires now (popped.2.removeInterest popped.1) p') : Expires now p p'

lemma expires_expireDue (cfg : ThreadConfig) (now : Time) (fuel : ℕ) (t : Thread) :
    Expires now t.pitCS (expireDue cfg now fuel t).pitCS := by
  induction fuel generalizing t with
  | zero => exact .nil _
  | succ fuel ih =>
    unfold expireDue
    split
    · exact .nil _
    · rename_i popped hpop
      exact .cons hpop (ih (expireEntry cfg { t with pitCS := popped.2 } popped.1 now))

/-- The table that Data is looked up in: the content store has taken it, if it admits any. -/
def PitCsTree.admitData (cfg : TableConfig) (p : PitCsTree) (data : FwData) (now : Time) :
    PitCsTree :=
  if cfg.csAdmit then p.insertData cfg data now else p

lemma admitData_pitCS {data : FwData} :
    (admitData cfg t data now).pitCS = t.pitCS.admitData cfg.table data now := by
  unfold admitData PitCsTree.admitData
  split_ifs <;> rfl

/-- What an event does to the PIT. -/
inductive PitStep (cfg : TableConfig) (p : PitCsTree) : ThreadEvent → PitCsTree → Prop
  | relays {ev : ThreadEvent} {p' : PitCsTree} (hrelays : Relays p p') : PitStep cfg p ev p'
  | looped {pkt : InterestPkt} {now : Time} {nonce pick e : ℕ} {wish : List Str}
      {csWish : List ℕ} {p' : PitCsTree} (hnonce : pkt.interest.nonce = some nonce)
      (hinsert : p.insertPkt cfg pkt nonce pick = (p', e, true)) :
      PitStep cfg p (.interest pkt now pick wish csWish) p'
  | entered {pkt : InterestPkt} {now : Time} {nonce pick e : ℕ} {wish : List Str}
      {csWish : List ℕ} {p' p'' : PitCsTree} (hnonce : pkt.interest.nonce = some nonce)
      (hinsert : p.insertPkt cfg pkt nonce pick = (p', e, false))
      (henters : Enters cfg pkt nonce e now csWish (p'.recordPkt pkt nonce e now) p'') :
      PitStep cfg p (.interest pkt now pick wish csWish) p''
  | satisfied {data : FwData} {inFace : Face} {pitToken : Bytes} {now : Time} {p' : PitCsTree}
      (hall : SatisfiesAll now ((p.admitData cfg data now).findInterestPrefixMatchByData cfg
        data.name (incomingToken pitToken)) (p.admitData cfg data now) p') :
      PitStep cfg p (.data data inFace pitToken now) p'
  | expired {now : Time} {p' : PitCsTree} (hexpires : Expires now p p') :
      PitStep cfg p (.update now) p'

/-- An Interest passes the tests of `processIncomingInterest`, and `InsertInterest` finds the entry
`e` for it, in the table `q`. -/
structure Thread.Inserts (cfg : ThreadConfig) (t : Thread) (pkt : InterestPkt) (pick nonce e : ℕ)
    (q : PitCsTree) (looped : Bool) : Prop where
  carries : pkt.interest.nonce = some nonce
  passes : ∃ incoming, t.faces pkt.incomingFaceID = some incoming
    ∧ ¬ (pkt.interest.hopLimit = some 0 ∨ violatesLocalhost incoming pkt.interest.name
      ∨ t.deadNonceList.find cfg.table pkt.interest.name nonce)
  inserts : t.pitCS.insertPkt cfg.table pkt nonce pick = (q, e, looped)

/-- How `processIncomingInterest` ends. -/
inductive InterestCase (cfg : ThreadConfig) (t : Thread) (pkt : InterestPkt) (now : Time)
    (pick : ℕ) (wish : List Str) (csWish : List ℕ) : Thread × List OutPkt → Prop
  | dropped (hnot : ∀ nonce e q looped, ¬ t.Inserts cfg pkt pick nonce e q looped) :
      InterestCase cfg t pkt now pick wish csWish (t, [])
  | looped {nonce e : ℕ} {q : PitCsTree} (h : t.Inserts cfg pkt pick nonce e q true) :
      InterestCase cfg t pkt now pick wish csWish ({ t with pitCS := q },
        afterReceiveLoopedInterest cfg { t with pitCS := q } pkt.decremented e pkt.incomingFaceID)
  | entered {nonce e : ℕ} {q : PitCsTree} (h : t.Inserts cfg pkt pick nonce e q false)
      (incoming : FaceInfo) (hint : Option Name) :
      InterestCase cfg t pkt now pick wish csWish
        (admitInterest cfg { t with pitCS := q } pkt pkt.decremented nonce incoming hint e now wish
          csWish)

lemma interestCase {pick : ℕ} {wish : List Str} {csWish : List ℕ} {r : Thread × List OutPkt}
    (hr : processIncomingInterest cfg t pkt now pick wish csWish = r) :
    InterestCase cfg t pkt now pick wish csWish r := by
  subst hr
  unfold processIncomingInterest
  split
  · rename_i incoming nonce hface hnonce
    dsimp only
    split_ifs with hdrop hloop
    · refine .dropped fun nonce' _ _ _ ⟨hnonce', ⟨incoming', hface', hpasses⟩, _⟩ => ?_
      cases hface.symm.trans hface'
      cases hnonce.symm.trans hnonce'
      exact hpasses hdrop
    · exact .looped ⟨hnonce, ⟨incoming, hface, hdrop⟩, Prod.ext rfl (Prod.ext rfl hloop)⟩
    · exact .entered ⟨hnonce, ⟨incoming, hface, hdrop⟩,
        Prod.ext rfl (Prod.ext rfl (Bool.eq_false_iff.mpr hloop))⟩ incoming _
  · rename_i hmissing
    exact .dropped fun nonce _ _ _ ⟨hnonce, ⟨incoming, hface, _⟩, _⟩ =>
      hmissing incoming nonce hface hnonce

lemma pitStep_interest {pick : ℕ} {wish : List Str} {csWish : List ℕ} :
    PitStep cfg.table t.pitCS (.interest pkt now pick wish csWish)
      (processIncomingInterest cfg t pkt now pick wish csWish).1.pitCS := by
  generalize hr : processIncomingInterest cfg t pkt now pick wish csWish = r
  cases interestCase hr with
  | dropped => exact .relays (.refl _)
  | looped h => exact .looped h.carries h.inserts
  | @entered nonce e q h incoming hint =>
    exact .entered h.carries h.inserts (admits_admitInterest cfg { t with pitCS := q } pkt nonce
      incoming hint e now wish csWish).enters

lemma pitStep_data {data : FwData} {pitToken : Bytes} :
    PitStep cfg.table t.pitCS (.data data inFace pitToken now)
      (processIncomingData cfg t data inFace pitToken now).1.pitCS := by
  unfold processIncomingData
  split
  · exact .relays (.refl _)
  · dsimp only
    split_ifs
    · exact .relays (.refl _)
    · refine .satisfied ?_
      rw [← admitData_pitCS]
      split
      · rename_i hfound
        rw [hfound]
        exact .nil _
      · rename_i e hfound
        rw [hfound]
        refine .cons (satisfies_satisfyEntry cfg ?_ data.name e) (.nil _)
        exact (serves_afterReceiveData (t := { admitData cfg t data now with
          pitCS := (admitData cfg t data now).pitCS.updateExpirationTimer e now })
          fun _ _ => True).relays
      · rename_i first rest _ hfound
        rw [hfound]
        exact satisfiesAll_each cfg data inFace first now (first :: rest) _

/-- **What an event does to the PIT.** -/
theorem pitStep_threadStep (cfg : ThreadConfig) (t : Thread) (ev : ThreadEvent) :
    PitStep cfg.table t.pitCS ev (threadStep cfg t ev).pitCS := by
  cases ev with
  | interest pkt now pick wish csWish => exact pitStep_interest
  | data data inFace pitToken now => exact pitStep_data
  | nack interest inFace nackReason now =>
    refine .relays ?_
    simp only [threadStep, threadHandle, processIncomingNack]
    split_ifs
    · exact .refl _
    · split
      · exact .refl _
      · exact (serves_afterReceiveNack fun _ _ => True).relays
  | deadNonces now | faceTable faces | fib fib | strategies strategies => exact .relays (.refl _)
  | update now => exact .expired (expires_expireDue cfg now _ t)
  | tick now wish => exact .relays (serves_tick fun _ _ => True).relays
  | node ev =>
    refine .relays ?_
    simp only [threadStep, threadHandle]
    split_ifs <;> exact .refl _

lemma threadRun_concat (cfg : ThreadConfig) (es : List ThreadEvent) (ev : ThreadEvent) :
    threadRun cfg (es ++ [ev]) = threadStep cfg (threadRun cfg es) ev :=
  Steps.run_concat _ _ _

/-! ### The entries stay -/

lemma grows_recordPkt (h : PitWf p) : Grows p (p.recordPkt pkt nonce e now) := by
  refine (samePit_onEntry p e ?_ ?_).grows h
  all_goals
    simp only [NameTreePitEntry.insertInRecord]
    split <;> rfl

lemma SameButUse.grows (hs : SameButUse p p') (h : PitWf p) : Grows p p' := by
  rw [hs.table]
  exact grows_of_eq h rfl rfl rfl rfl

lemma grows_timer {time : Time} (h : PitWf p) : Grows p (p.updateExpirationTimer e time) :=
  (samePit_updateExpirationTimer p e time).grows h

lemma Relays.grows (hr : Relays p p') (h : PitWf p) : Grows p p' := hr.samePit.grows h

lemma grows_prolong {time : Time} (h : PitWf p) : Grows p (p.prolong e time) := by
  unfold prolong
  split_ifs
  exacts [grows_timer h, .refl h]

lemma Enters.grows {cfg : TableConfig} {wish : List ℕ} (hen : Enters cfg pkt nonce e now wish p p')
    (h : PitWf p) : Grows p p' := by
  cases hen with
  | served index hserve hfound =>
    have huse := sameButUse_findMatchingDataFromCS cfg p pkt.decremented now wish
    rw [hfound] at huse
    exact ((huse.grows h).andThen grows_timer).andThen relays_removeInRecord.grows
  | forwarded huse hrelays => exact ((huse.grows h).andThen grows_prolong).andThen hrelays.grows

lemma SatisfiesAll.grows {es : List ℕ} (hs : SatisfiesAll now es p p') (h : PitWf p) :
    Grows p p' := by
  induction hs with
  | nil => exact .refl h
  | cons hfirst _ ih =>
    cases hfirst with
    | intro hrelays =>
      have hsent := (grows_timer h).andThen hrelays.grows
      exact (hsent.andThen (samePit_onEntry _ _ rfl rfl).grows).andThen ih

lemma grows_admitData {cfg : TableConfig} (h : PitWf p) (data : FwData) (now : Time) :
    Grows p (p.admitData cfg data now) := by
  unfold PitCsTree.admitData
  split_ifs
  exacts [grows_insertData h cfg data now, .refl h]

lemma Expires.pitWf (hx : Expires now p p') (h : PitWf p) : PitWf p' := by
  induction hx with
  | nil => exact h
  | cons hpop _ ih =>
    exact ih (removeInterest_spec ((samePit_popExpired hpop).1.grows h).wf).1

lemma insertPkt_spec {cfg : TableConfig} {pick : ℕ} {loop : Bool}
    (hinsert : p.insertPkt cfg pkt nonce pick = (p', e, loop)) (h : PitWf p) :
    Grows p p' ∧ (p.Unmistaken cfg pkt.interest.name → p'.Backs e pkt.interest.name) := by
  have hspec := insertInterest_spec h cfg pkt.decremented nonce
    (forwardingHintOf cfg pkt.interest.forwardingHint) pkt.incomingFaceID pick
  rw [insertPkt] at hinsert
  rwa [hinsert] at hspec

/-- Every event but `Update` keeps the entries. -/
lemma PitStep.grows {cfg : TableConfig} {ev : ThreadEvent} (hs : PitStep cfg p ev p')
    (h : PitWf p) : Grows p p' ∨ ∃ now, ev = .update now ∧ Expires now p p' := by
  cases hs with
  | relays hrelays => exact .inl (hrelays.grows h)
  | looped hnonce hinsert => exact .inl (insertPkt_spec hinsert h).1
  | entered hnonce hinsert henters =>
    exact .inl (((insertPkt_spec hinsert h).1.andThen grows_recordPkt).andThen henters.grows)
  | satisfied hall => exact .inl ((grows_admitData h _ _).andThen hall.grows)
  | expired hexpires => exact .inr ⟨_, rfl, hexpires⟩

/-- Every event keeps the table well formed. -/
lemma PitStep.pitWf {cfg : TableConfig} {ev : ThreadEvent} (hs : PitStep cfg p ev p')
    (h : PitWf p) : PitWf p' := by
  rcases hs.grows h with hgrows | ⟨_, -, hexpires⟩
  exacts [hgrows.wf, hexpires.pitWf h]

/-- **The invariant rule for the PIT of a thread**: what every step of a well-formed table that
meets the condition keeps, a run of such steps keeps. -/
theorem pit_invariant {I : PitCsTree → Prop} (ok : PitCsTree → ThreadEvent → Prop)
    (hstep : ∀ p ev p', PitWf p → PitStep cfg.table p ev p' → ok p ev → I p → I p')
    (hnew : I .new) {es : List ThreadEvent}
    (hes : Steps.Guarded (threadStep cfg) (fun t ev => ok t.pitCS ev) .new es) :
    PitWf (threadRun cfg es).pitCS ∧ I (threadRun cfg es).pitCS :=
  Steps.guarded_invariant (I := fun t : Thread => PitWf t.pitCS ∧ I t.pitCS)
    (fun t ev h hok =>
      have hs := pitStep_threadStep cfg t ev
      ⟨hs.pitWf h.1, hstep _ _ _ h.1 hs hok h.2⟩)
    ⟨pitWf_new, hnew⟩ hes

lemma pitWf_threadRun {es : List ThreadEvent} : PitWf (threadRun cfg es).pitCS :=
  (pit_invariant (I := fun _ => True) (fun _ _ => True) (fun _ _ _ _ _ _ _ => trivial)
    trivial (Steps.guarded_of_forall_mem (fun _ _ _ => trivial) _)).1

/-- **No entry in use is in the pool**: the node it points to lists it, under its name. -/
theorem pit_entries_placed (cfg : ThreadConfig) (es : List ThreadEvent) (e : ℕ) (node : List ℕ) :
    let p := (threadRun cfg es).pitCS
    (p.entries e).node = some node ↔ node ∈ p.tree.paths ∧ e ∈ (p.tree.val node).pitEntries
      ∧ (p.entries e).encname = (p.tree.val node).name ∧ e ∉ p.pool := by
  have h : PitWf (threadRun cfg es).pitCS := pitWf_threadRun
  refine ⟨fun hat => ?_, fun ⟨hnode, hmem, _⟩ => ((h.nodes node hnode).entry e hmem).1⟩
  obtain ⟨hnode, hmem⟩ := h.listed e node hat
  obtain ⟨-, hname, -, hpool⟩ := (h.nodes node hnode).entry e hmem
  exact ⟨hnode, hmem, hname, hpool⟩

end Mars
