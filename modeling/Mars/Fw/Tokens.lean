import Mars.Fw.Delivery

/-!
The PIT tokens that leave a forwarding thread.

A token enters with an Interest, is kept in the in-record of its PIT entry, and leaves with the
Data or the NACK that goes back to the face.  Nothing on this way looks at its length, but
`sendPacket` panics on a token that is neither empty nor six bytes long.

* `PitStep.records`: what is true of the tokens that enter an entry is true of its in-records;
* `RecordsMeet P`: the tokens of all in-records meet `P`;
* `Answering`: the PIT entry that an event is about, with its in-records when packets are sent;
* `tokenFrom_threadHandle`: a packet that goes back to a face has the token of its in-record there,
  apart from NACKs to faces without one;
* `outgoing_tokens_fit`: so no token makes `sendPacket` panic, if each comes in with a length of
  zero or six.
-/

namespace Mars

open Function List PitCsTree

variable {P : Bytes → Prop} {Q : Face → Bytes → Prop} {cfg : ThreadConfig} {t : Thread}
  {p p' : PitCsTree} {e : ℕ}

/-- The test of `sendPacket` on the token: the length of one that is there must be six. -/
def OutPkt.panics (out : OutPkt) : Bool :=
  decide (0 < out.pitToken.length) && decide (out.pitToken.length ≠ 6)

/-! ### The in-records -/

lemma Expires.inRecords {now : Time} (hx : Expires now p p') (hwf : PitWf p) :
    (p'.entries e).inRecords ⊆ (p.entries e).inRecords := by
  induction hx with
  | nil => exact Subset.refl _
  | @cons p p' popped hpop _ ih =>
    have hwf' := ((samePit_popExpired hpop).1.grows hwf).wf
    refine Subset.trans (ih (removeInterest_spec hwf').1) ?_
    refine Subset.trans ?_ ((keeps_popExpired hpop).inRecords e)
    rw [entries_removeInterest hwf']
    rcases eq_or_ne e popped.1 with rfl | hne
    · rw [update_self]
      dsimp only
      split_ifs
      exacts [Subset.refl _, nil_subset _]
    · rw [update_of_ne hne]
      exact Subset.refl _

/-- The in-record of an incoming Interest has its face and its token, or that of an older one. -/
lemma records_recordPkt {cfg : TableConfig} {q : PitCsTree} {pkt : InterestPkt} {nonce pick : ℕ}
    {loop : Bool} (now : Time) (hwf : PitWf p)
    (hinsert : p.insertPkt cfg pkt nonce pick = (q, e, loop))
    (hin : Q pkt.incomingFaceID pkt.pitToken)
    (h : ∀ r ∈ (p.entries e).inRecords, Q r.face r.pitToken) :
    ∀ r ∈ ((q.recordPkt pkt nonce e now).entries e).inRecords, Q r.face r.pitToken := by
  have hold := insertInterest_inRecords hwf hinsert e
  intro r hr
  rw [recordPkt, onEntry_self] at hr
  rcases insertInRecord_records _ pkt nonce now r hr with
    ⟨⟨hface, -⟩, ⟨r', hr', hface', htoken⟩ | ⟨htoken, -⟩⟩ | ⟨-, hr⟩
  · rw [← hface', ← htoken]
    exact h r' (hold hr')
  · rwa [hface, htoken]
  · exact h r (hold hr)

/-- **What one step keeps**: the in-records of an entry have faces and tokens of Interests that
entered it. -/
lemma PitStep.records {cfg : TableConfig} {ev : ThreadEvent} (hs : PitStep cfg p ev p')
    (hwf : PitWf p)
    (hin : ∀ {pkt now nonce pick wish csWish q}, ev = .interest pkt now pick wish csWish →
      pkt.interest.nonce = some nonce → p.insertPkt cfg pkt nonce pick = (q, e, false) →
      Q pkt.incomingFaceID pkt.pitToken)
    (h : ∀ r ∈ (p.entries e).inRecords, Q r.face r.pitToken) :
    ∀ r ∈ (p'.entries e).inRecords, Q r.face r.pitToken := by
  cases hs with
  | relays hrelays => exact fun r hr => h r ((hrelays.entry e).inRecords hr)
  | looped hnonce hinsert =>
    obtain ⟨-, rfl⟩ := insertInterest_looped hwf hinsert
    exact h
  | @entered pkt now nonce pick e' _ _ _ _ hnonce hinsert henters =>
    refine fun r hr => ?_
    have hr := henters.keeps.inRecords e hr
    rcases eq_or_ne e e' with rfl | hne
    · exact records_recordPkt now hwf hinsert (hin rfl hnonce hinsert) h r hr
    · rw [recordPkt, onEntry_of_ne hne] at hr
      exact h r (insertInterest_inRecords hwf hinsert e hr)
  | satisfied hall =>
    refine fun r hr => h r ?_
    have hr := hall.keeps.inRecords e hr
    rwa [(entries_admitData ..).1] at hr
  | expired hexpires => exact fun r hr => h r (hexpires.inRecords hwf hr)

/-- The token of every in-record, of every entry there is, meets `P`. -/
def RecordsMeet (P : Bytes → Prop) (p : PitCsTree) : Prop :=
  ∀ e, ∀ record ∈ (p.entries e).inRecords, P record.pitToken

lemma recordsMeet_new : RecordsMeet P .new := fun _ _ h => absurd h not_mem_nil

/-- The condition on an event: the token of an incoming Interest meets `P`. -/
def ThreadEvent.TokenMeets (P : Bytes → Prop) : ThreadEvent → Prop
  | .interest pkt _ _ _ _ => P pkt.pitToken
  | _ => True

lemma RecordsMeet.step {cfg : TableConfig} {ev : ThreadEvent} (h : RecordsMeet P p) (hwf : PitWf p)
    (hs : PitStep cfg p ev p') (hev : ev.TokenMeets P) : RecordsMeet P p' := by
  refine fun e => hs.records (Q := fun _ => P) hwf ?_ (h e)
  rintro pkt now nonce pick wish csWish q rfl - -
  exact hev

/-! ### What is sent -/

/-- The PIT entry that an event is about, and its in-records when packets are sent. -/
def Answering (cfg : ThreadConfig) (t : Thread) (e : ℕ) (records : List PitInRecord) :
    ThreadEvent → Prop
  | .interest pkt now pick _ _ => ∃ nonce q looped, t.Inserts cfg pkt pick nonce e q looped
    ∧ records = ((if looped then q else q.recordPkt pkt nonce e now).entries e).inRecords
  | .data data _ pitToken now => records = (t.pitCS.entries e).inRecords
    ∧ e ∈ (t.pitCS.admitData cfg.table data now).findInterestPrefixMatchByData cfg.table data.name
      (incomingToken pitToken)
  | .nack interest _ _ _ => records = (t.pitCS.entries e).inRecords
    ∧ t.pitCS.findInterestExactMatch cfg.table interest = some e
  | _ => False

/-- **What goes back to a face has the token of its in-record**, apart from a NACK to a face
without one. -/
theorem tokenFrom_threadHandle {ev : ThreadEvent} :
    ∀ out ∈ (threadHandle cfg t ev).2, out.Made cfg.threadID
      ∨ ∃ e records, Answering cfg t e records ev ∧ TokenFrom cfg.threadID records out := by
  intro out hout
  cases ev with
  | interest pkt now pick wish csWish =>
    simp only [threadHandle] at hout
    generalize hr : processIncomingInterest cfg t pkt now pick wish csWish = r at hout
    cases interestCase hr with
    | dropped => exact absurd hout not_mem_nil
    | looped h =>
      refine .inr ⟨_, _, ⟨_, _, _, h, rfl⟩, ?_⟩
      unfold afterReceiveLoopedInterest at hout
      split at hout
      · exact sentFrom_outgoingNack out hout
      · exact absurd hout not_mem_nil
    | entered h incoming hint =>
      exact .inr ⟨_, _, ⟨_, _, _, h, rfl⟩, (admits_admitInterest ..).sent out hout⟩
  | data data inFace pitToken now =>
    obtain ⟨e, hfound, hrecord⟩ := hasRecord_processIncomingData out hout
    exact .inr ⟨e, _, ⟨rfl, hfound⟩, .record hrecord⟩
  | nack interest inFace nackReason now =>
    simp only [threadHandle, processIncomingNack] at hout
    split_ifs at hout
    · exact absurd hout not_mem_nil
    · split at hout
      · exact absurd hout not_mem_nil
      · rename_i e hfound
        exact .inr ⟨e, _, ⟨rfl, hfound⟩, (serves_afterReceiveNack fun _ _ => True).sent out hout⟩
  | deadNonces now | update now | faceTable faces | fib fib | strategies strategies =>
    exact absurd hout not_mem_nil
  | tick now wish => exact .inl (forwards_queued.sent out hout)
  | node e =>
    simp only [threadHandle] at hout
    split_ifs at hout <;> exact absurd hout not_mem_nil

lemma RecordsMeet.answering {ev : ThreadEvent} {records : List PitInRecord}
    (h : RecordsMeet P t.pitCS) (hwf : PitWf t.pitCS) (hev : ev.TokenMeets P)
    (hans : Answering cfg t e records ev) :
    ∀ r ∈ records, P r.pitToken := by
  cases ev with
  | interest pkt now pick wish csWish =>
    obtain ⟨nonce, q, looped, hq, rfl⟩ := hans
    cases looped with
    | true => exact fun r hr => h e r (insertInterest_inRecords hwf hq.inserts e hr)
    | false => exact records_recordPkt (Q := fun _ => P) now hwf hq.inserts hev (h e)
  | data => exact hans.1 ▸ h e
  | nack => exact hans.1 ▸ h e
  | _ => exact hans.elim

theorem recordsMeet_threadRun {es : List ThreadEvent} (hes : ∀ e ∈ es, e.TokenMeets P) :
    RecordsMeet P (threadRun cfg es).pitCS :=
  (pit_invariant (fun _ e => e.TokenMeets P) (fun _ _ _ hwf hs he h => h.step hwf hs he)
    recordsMeet_new (Steps.guarded_of_forall_mem (fun e he _ => hes e he) _)).2

/-! ### The lengths of tokens -/

/-- The lengths that `sendPacket` takes. -/
def TokenFits (pitToken : Bytes) : Prop := pitToken.length = 0 ∨ pitToken.length = 6

instance (pitToken : Bytes) : Decidable (TokenFits pitToken) := inferInstanceAs (Decidable (_ ∨ _))

lemma fits_makePitToken (threadID token : ℕ) : TokenFits (makePitToken threadID token) := by
  simp [TokenFits, makePitToken, bigEndian]

/-- **No token makes `sendPacket` panic**, if each Interest comes in with a token of length zero
or six. -/
theorem outgoing_tokens_fit (cfg : ThreadConfig) (es : List ThreadEvent) (e : ThreadEvent)
    (hes : ∀ e' ∈ es ++ [e], e'.TokenMeets TokenFits) :
    ∀ out ∈ (threadHandle cfg (threadRun cfg es) e).2,
      TokenFits out.pitToken ∧ out.panics = false := by
  have hrun : RecordsMeet TokenFits (threadRun cfg es).pitCS :=
    recordsMeet_threadRun fun e' he' => hes e' (mem_append_left _ he')
  intro out hout
  have hfits : TokenFits out.pitToken := by
    rcases tokenFrom_threadHandle out hout with ⟨_, _, _, _, rfl⟩ | ⟨e', records, hans, hfrom⟩
    · exact fits_makePitToken _ _
    · cases hfrom with
      | interest h =>
        obtain ⟨_, _, _, _, rfl⟩ := h
        exact fits_makePitToken _ _
      | record h =>
        obtain ⟨r, hr, -, htoken⟩ := h
        exact htoken ▸ hrun.answering pitWf_threadRun
          (hes e (mem_append_right _ mem_cons_self)) hans r hr
      | made => exact fits_makePitToken _ _
  refine ⟨hfits, ?_⟩
  rcases hfits with h | h <;> simp [OutPkt.panics, h]

/-- An Interest with the given PIT token arrives from face `9`. -/
def tokenArrival (pitToken : Bytes) : ThreadEvent :=
  .interest ⟨plainInterest [['a'], ['b']] 7, 9, pitToken, none⟩ 0 0 [] []

/-- The Data for that Interest arrives from face `2`. -/
def dataArrival : ThreadEvent := .data ⟨[['a'], ['b']], none, []⟩ 2 [] 1

/-- Every face is there, and all names are routed to face `2`. -/
def routed : List ThreadEvent :=
  [.faceTable (fun _ => some ⟨false, false⟩), .fib (fun _ => [⟨2, 1⟩])]

theorem outgoing_tokens_fit_six :
    (threadHandle smallThread (threadRun smallThread
        (routed ++ [tokenArrival [1, 2, 3, 4, 5, 6]])) dataArrival).2
      = [.data ⟨[['a'], ['b']], none, []⟩ none 9 2 [1, 2, 3, 4, 5, 6]]
      ∧ ∀ out ∈ (threadHandle smallThread (threadRun smallThread
          (routed ++ [tokenArrival [1, 2, 3, 4, 5, 6]])) dataArrival).2,
        TokenFits out.pitToken ∧ out.panics = false := by
  refine ⟨by decide +kernel, outgoing_tokens_fit smallThread _ _ ?_⟩
  intro e he
  simp only [routed, cons_append, nil_append, mem_cons, not_mem_nil,
    or_false] at he
  rcases he with rfl | rfl | rfl | rfl
  · trivial
  · trivial
  · exact .inr rfl
  · trivial

/-- An Interest arrives with a token of four bytes.  The Data that answers it is handed to the
face with the same token, on which `sendPacket` panics. -/
theorem short_token_panics :
    (threadHandle smallThread (threadRun smallThread
        (routed ++ [tokenArrival [1, 2, 3, 4]])) dataArrival).2
      = [.data ⟨[['a'], ['b']], none, []⟩ none 9 2 [1, 2, 3, 4]]
      ∧ (OutPkt.data ⟨[['a'], ['b']], none, []⟩ none 9 2 [1, 2, 3, 4]).panics = true := by
  decide +kernel

end Mars
