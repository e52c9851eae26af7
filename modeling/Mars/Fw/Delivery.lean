import Mars.Fw.Expiry
import Mars.PathDiscovery.Announcement
import Mars.Table.Matching

/-!
Whom Data is delivered to.

Data goes to the in-records of the entries it is matched with, and these were made for Interests
that came from their faces.

* `Keeps`: a table has lost in-records, and its tree, its tokens and the names of its entries are
  the same;
* `Known`: every in-record was made for an Interest that asked for the name of its entry;
* `hasRecord_processIncomingData`: Data is sent to in-records of the entries that are found, with
  their tokens;
* `data_satisfies_what_it_names`: so it is only delivered to faces that asked for it;
* `satisfied_nonces_die`: the entries that are found lose their records, and the nonces of the first
  of them become dead.
-/

namespace Mars

open Function List PitCsTree ThreadEvent

variable {cfg : TableConfig} {p p' p'' : PitCsTree} {e : ℕ} {now : Time} {data : FwData}
  {t : Thread} {inFace : Face}

/-! ### In-records -/

/-- A table has lost in-records, and its tree, its tokens and the names of its entries are the
same. -/
structure Keeps (p p' : PitCsTree) : Prop where
  tree : p'.tree = p.tree
  tokens : p'.pitTokens = p.pitTokens
  entry : ∀ e, p'.entries e = { p'.entries e with
    node := (p.entries e).node
    encname := (p.entries e).encname
    canBePrefix := (p.entries e).canBePrefix
    token := (p.entries e).token }
  inRecords : ∀ e, (p'.entries e).inRecords ⊆ (p.entries e).inRecords

lemma Keeps.trans (h : Keeps p p') (h' : Keeps p' p'') : Keeps p p'' where
  tree := h'.tree.trans h.tree
  tokens := h'.tokens.trans h.tokens
  entry := fun e => by rw [h'.entry, h.entry]
  inRecords := fun e => Subset.trans (h'.inRecords e) (h.inRecords e)

/-- An edit of an entry that leaves its name. -/
lemma keeps_onEntry (p : PitCsTree) (e : ℕ) {f : NameTreePitEntry → NameTreePitEntry}
    (hrest : f (p.entries e) = { f (p.entries e) with
      node := (p.entries e).node
      encname := (p.entries e).encname
      canBePrefix := (p.entries e).canBePrefix
      token := (p.entries e).token })
    (hsub : (f (p.entries e)).inRecords ⊆ (p.entries e).inRecords) : Keeps p (p.onEntry e f) where
  tree := rfl
  tokens := rfl
  entry := fun e' => by
    rcases eq_or_ne e' e with rfl | hne
    · rwa [onEntry_self]
    · rw [onEntry_of_ne hne]
  inRecords := (forall_update_iff p.entries fun e' entry =>
    entry.inRecords ⊆ (p.entries e').inRecords).mpr ⟨hsub, fun _ _ => Subset.refl _⟩

lemma Relays.keeps (h : Relays p p') : Keeps p p' where
  tree := by rw [h.table]
  tokens := by rw [h.table]
  entry := fun e => by rw [(h.entry e).rest]
  inRecords := fun e => (h.entry e).inRecords

lemma SameButUse.keeps (h : SameButUse p p') : Keeps p p' where
  tree := by rw [h.table]
  tokens := by rw [h.table]
  entry := fun e => by rw [h.entries]
  inRecords := fun e => by
    rw [h.entries]
    exact Subset.refl _

lemma keeps_timer {time : Time} : Keeps p (p.updateExpirationTimer e time) := by
  have hedit : Keeps p (p.onEntry e fun entry =>
      { entry with expirationTime := time, queued := true }) :=
    keeps_onEntry p e rfl (Subset.refl _)
  unfold updateExpirationTimer
  split_ifs <;> exact { hedit with }

lemma keeps_prolong {time : Time} : Keeps p (p.prolong e time) := by
  unfold prolong
  split_ifs
  · exact keeps_timer
  · exact SameButUse.refl.keeps

lemma keeps_popExpired {popped : ℕ × PitCsTree} (hpop : p.popExpired now = some popped) :
    Keeps p popped.2 := by
  obtain ⟨item, -, rfl⟩ := Option.map_eq_some_iff.mp hpop
  have hedit : Keeps p (p.onEntry item.1 fun entry => { entry with queued := false }) :=
    keeps_onEntry p item.1 rfl (Subset.refl _)
  exact { hedit with }

lemma Enters.keeps {pkt : InterestPkt} {nonce : ℕ} {wish : List ℕ}
    (hen : Enters cfg pkt nonce e now wish p p') : Keeps p p' := by
  cases hen with
  | served index hserve hfound =>
    have huse := sameButUse_findMatchingDataFromCS cfg p pkt.decremented now wish
    rw [hfound] at huse
    exact (huse.keeps.trans keeps_timer).trans relays_removeInRecord.keeps
  | forwarded huse hrelays => exact (huse.keeps.trans keeps_prolong).trans hrelays.keeps

lemma SatisfiesAll.keeps {es : List ℕ} (hs : SatisfiesAll now es p p') : Keeps p p' := by
  induction hs with
  | nil p => exact SameButUse.refl.keeps
  | cons hfirst _ ih =>
    cases hfirst with
    | intro hrelays =>
      refine ((keeps_timer.trans hrelays.keeps).trans ?_).trans ih
      exact keeps_onEntry _ _ rfl (nil_subset _)

/-! ### Who asked -/

/-- An Interest with the name of the entry has come from the face. -/
def Asked (es : List ThreadEvent) (face : Face) (entry : NameTreePitEntry) : Prop :=
  ∃ pkt now pick wish csWish, interest pkt now pick wish csWish ∈ es
    ∧ pkt.incomingFaceID = face ∧ pkt.interest.name = entry.encname
    ∧ pkt.interest.canBePrefix = entry.canBePrefix

/-- The tree and the tokens are in order, and every in-record was made for an Interest with the
name of its entry. -/
structure Known (es : List ThreadEvent) (p : PitCsTree) : Prop where
  edged : Edged p.tree
  tokens : TokenWf p
  asked : ∀ e, ∀ r ∈ (p.entries e).inRecords, Asked es r.face (p.entries e)

variable {es : List ThreadEvent}

lemma Known.keeps (h : Known es p) (hk : Keeps p p') : Known es p' where
  edged := by
    rw [hk.tree]
    exact h.edged
  tokens := h.tokens.congr hk.tokens fun e => by
    rw [hk.entry]
    exact ⟨rfl, rfl⟩
  asked := fun e r hr => by
    obtain ⟨pkt, now, pick, wish, csWish, hin, hface, hname, hstart⟩ :=
      h.asked e r (hk.inRecords e hr)
    exact ⟨pkt, now, pick, wish, csWish, hin, hface, by rw [hname, hk.entry],
      by rw [hstart, hk.entry]⟩

lemma Known.mono {ev : ThreadEvent} (h : Known es p) : Known (es ++ [ev]) p where
  edged := h.edged
  tokens := h.tokens
  asked := fun e r hr => by
    obtain ⟨pkt, now, pick, wish, csWish, hin, hrest⟩ := h.asked e r hr
    exact ⟨pkt, now, pick, wish, csWish, mem_append_left _ hin, hrest⟩

lemma Known.expires (hx : Expires now p p') (hwf : PitWf p) (h : Known es p) : Known es p' := by
  induction hx with
  | nil => exact h
  | @cons p p' popped hpop _ ih =>
    have hwf' := ((samePit_popExpired hpop).1.grows hwf).wf
    obtain ⟨hremoved, -, -⟩ := removeInterest_spec hwf'
    have hk := h.keeps (keeps_popExpired hpop)
    refine ih hremoved ⟨edged_removeInterest hwf' hk.edged,
      hk.tokens.removeInterest hwf', fun e r hr => ?_⟩
    rw [entries_removeInterest hwf'] at hr ⊢
    rcases eq_or_ne e popped.1 with rfl | hne
    · rw [update_self] at hr ⊢
      dsimp only at hr
      split_ifs at hr with hnode
      · simpa [hnode, Asked] using hk.asked _ r hr
      · exact absurd hr not_mem_nil
    · rw [update_of_ne hne] at hr ⊢
      exact hk.asked e r hr

lemma Known.admitData (hwf : PitWf p) (h : Known es p) (data : FwData) (now : Time) :
    Known es (p.admitData cfg data now) := by
  have hcs := csOnly_insertData cfg p data now
  unfold PitCsTree.admitData
  split_ifs
  · refine ⟨edged_insertData hwf h.edged,
      h.tokens.congr hcs.pitTokens fun e => ?_, fun e => ?_⟩
    · rw [hcs.entries]
      exact ⟨rfl, rfl⟩
    · rw [hcs.entries]
      exact h.asked e
  · exact h

lemma unmistaken_admitData (hwf : PitWf p) (hu : p.Unmistaken cfg data.name) (now : Time) :
    (p.admitData cfg data now).Unmistaken cfg data.name := by
  unfold PitCsTree.admitData
  split_ifs
  exacts [unmistaken_insertData hwf hu, hu]

lemma tokenHonest_admitData {token : Option ℕ} (h : p.TokenHonest data.name token) (now : Time) :
    (p.admitData cfg data now).TokenHonest data.name token := by
  have hcs := csOnly_insertData cfg p data now
  unfold PitCsTree.admitData
  split_ifs
  · unfold TokenHonest
    rw [hcs.pitTokens, hcs.entries]
    exact h
  · exact h

/-- The name of an Interest is that of the node its hashes lead to, as far as they lead. -/
def ThreadEvent.Unmistaken (cfg : TableConfig) (p : PitCsTree) : ThreadEvent → Prop
  | .interest pkt _ _ _ _ => p.Unmistaken cfg pkt.interest.name
  | _ => True

/-- An Interest enters an entry of its name. -/
lemma Known.enters {pkt : InterestPkt} {nonce pick : ℕ} {wish : List Str} {csWish : List ℕ}
    {q : PitCsTree} (hwf : PitWf p) (hu : p.Unmistaken cfg pkt.interest.name)
    (hinsert : p.insertPkt cfg pkt nonce pick = (q, e, false))
    (hev : interest pkt now pick wish csWish ∈ es) (h : Known es p) :
    Known es (q.recordPkt pkt nonce e now) := by
  have hnamed : (q.entries e).encname = pkt.interest.name := by
    have hbacks := (insertInterest_spec hwf cfg pkt.decremented nonce
      (forwardingHintOf cfg pkt.interest.forwardingHint) pkt.incomingFaceID pick).2 hu
    rw [insertPkt] at hinsert
    rw [hinsert] at hbacks
    exact hbacks.2
  obtain ⟨q, hq, rfl⟩ := insertInterest_reset hwf hinsert
  have hask : Asked es pkt.incomingFaceID
      ((q.onEntry e fun entry => { entry with expirationTime := 0 }).entries e) := by
    refine ⟨pkt, now, pick, wish, csWish, hev, rfl, hnamed.symm, ?_⟩
    rw [onEntry_self]
    exact hq.canBePrefix.symm
  clear hnamed hinsert
  have hinserted : Known es q := by
    refine ⟨h.edged.inserts hwf hq, h.tokens.inserts hq, fun e' r hr => ?_⟩
    rcases eq_or_ne e' e with rfl | hne
    · cases hq with
      | joined => exact h.asked e' r hr
      | made _ hmade =>
        rw [hmade.entry] at hr
        exact absurd hr not_mem_nil
    · rw [hq.others hne] at hr ⊢
      exact h.asked e' r hr
  have hreset := hinserted.keeps (keeps_onEntry q e
    (f := fun entry => { entry with expirationTime := 0 }) rfl (Subset.refl _))
  generalize (q.onEntry e fun entry => { entry with expirationTime := 0 }) = q' at hreset hask ⊢
  have hrest := insertInRecord_rest (q'.entries e) pkt nonce now
  refine ⟨hreset.edged, hreset.tokens.congr rfl fun e' => ?_, fun e' r hr => ?_⟩
  · rcases eq_or_ne e' e with rfl | hne
    · rw [recordPkt, onEntry_self, hrest]
      exact ⟨rfl, rfl⟩
    · rw [recordPkt, onEntry_of_ne hne]
      exact ⟨rfl, rfl⟩
  · rcases eq_or_ne e' e with rfl | hne
    · rw [recordPkt, onEntry_self] at hr ⊢
      rcases insertInRecord_records _ pkt nonce now r hr with ⟨⟨hface, -⟩, -⟩ | ⟨-, hold⟩
      · rw [hface, hrest]
        exact hask
      · rw [hrest]
        exact hreset.asked e' r hold
    · rw [recordPkt, onEntry_of_ne hne] at hr ⊢
      exact hreset.asked e' r hr

/-- **What one step keeps.** -/
lemma known_step {ev : ThreadEvent} (hwf : PitWf p) (hs : PitStep cfg p ev p')
    (hev : ev.Unmistaken cfg p) (h : Known es p) : Known (es ++ [ev]) p' := by
  have hmono : Known (es ++ [ev]) p := h.mono
  cases hs with
  | relays hrelays => exact hmono.keeps hrelays.keeps
  | looped hnonce hinsert =>
    obtain ⟨-, rfl⟩ := insertInterest_looped hwf hinsert
    exact ⟨hmono.edged.fill hwf cfg _, { hmono.tokens with }, hmono.asked⟩
  | entered hnonce hinsert henters =>
    exact (hmono.enters hwf hev hinsert (mem_append_right _ (mem_singleton_self _))).keeps
      henters.keeps
  | satisfied hall => exact (hmono.admitData hwf _ _).keeps hall.keeps
  | expired hexpires => exact hmono.expires hexpires hwf

/-! ### What is sent -/

/-- Data that is sent to distinct faces, each with an in-record, takes the tokens of these along: a
face loses only its own. -/
lemma hasRecord_each {β : Type*} {f : Thread → β → Thread × List OutPkt} (faceOf : β → Option Face)
    (hskip : ∀ t b, faceOf b = none → f t b = (t, []))
    (hsend : ∀ t b face, faceOf b = some face →
      ∃ data flags inFace, f t b = sendData t data flags e face inFace) {bs : List β}
    (hnodup : (bs.filterMap faceOf).Nodup)
    (hin : ∀ face ∈ bs.filterMap faceOf, ∃ r ∈ (t.pitCS.entries e).inRecords, r.face = face) :
    ∀ out ∈ (Thread.each f bs t).2, out.HasRecord (t.pitCS.entries e).inRecords := by
  induction bs generalizing t with
  | nil => exact fun out hout => absurd hout not_mem_nil
  | cons b bs ih =>
    intro out hout
    rcases hb : faceOf b with _ | face
    · rw [filterMap_cons_none hb] at hnodup hin
      simp only [Thread.each, hskip t b hb, nil_append] at hout
      exact ih hnodup hin out hout
    · rw [filterMap_cons_some hb] at hnodup hin
      obtain ⟨data, flags, inFace, hfb⟩ := hsend t b face hb
      simp only [Thread.each, hfb] at hout
      rcases mem_append.mp hout with hout | hout
      · exact hasRecord_sendData (hin face mem_cons_self) out hout
      · have hleft : ((sendData t data flags e face inFace).1.pitCS.entries e).inRecords
            = (t.pitCS.entries e).inRecords.filter (·.face ≠ face) := by
          rw [sendData_fst, removeInRecord, onEntry_self]
        obtain ⟨r, hr, hgoes⟩ := ih (nodup_cons.mp hnodup).2 (fun face' hface' => by
          obtain ⟨r, hr, rfl⟩ := hin face' (mem_cons_of_mem face hface')
          rw [hleft]
          refine ⟨r, mem_filter.mpr ⟨hr, decide_eq_true ?_⟩, rfl⟩
          rintro rfl
          exact (nodup_cons.mp hnodup).1 hface') out hout
        rw [hleft] at hr
        exact ⟨r, mem_of_mem_filter hr, hgoes⟩

/-- The face that an action of a handler sends Data to. -/
def NodeAction.dataFace : NodeAction → Option Face
  | .pd (.sendData nexthop _ _ _) | .pd (.sendDataUnread nexthop _) => some nexthop
  | _ => none

/-- A path-discovery handler sends Data to faces it is given, and to each once. -/
lemma dataFace_pdData {node : Str} {st : PdStore} {name : Name} {payload : PdPayload}
    {inRecords : List Face} :
    ((pdHandle node st (.data name inFace payload inRecords)).out.map NodeAction.pd).filterMap
      NodeAction.dataFace <+ inRecords := by
  cases payload with
  | undecodable =>
    simp [pdHandle, handlePathDiscoveryData, filterMap_map, comp_def, NodeAction.dataFace]
  | malformed => exact nil_sublist _
  | discovery tierConverged nodeConverged =>
    have htier := processTier_spec (st (prefixKeyOf name)) inFace tierConverged
    have hsilent : ((processTier (st (prefixKeyOf name)) inFace tierConverged).out.map
        NodeAction.pd).filterMap NodeAction.dataFace = [] := by
      rw [filterMap_map, filterMap_eq_nil_iff]
      intro a ha
      have hnot := htier.mem_out ha
      cases a <;> first | rfl | exact absurd trivial hnot
    change ((pathDiscoveryData node (st (prefixKeyOf name)) inFace tierConverged nodeConverged
      inRecords).out.map NodeAction.pd).filterMap NodeAction.dataFace <+ inRecords
    rw [pathDiscoveryData, Outcome.bind_of_not_returned htier.not_returned, map_append,
      filterMap_append, hsilent]
    simp [filterMap_map, comp_def, NodeAction.dataFace]

/-- The strategy sends Data to in-records of the entry. -/
lemma hasRecord_afterReceiveData {cfg : ThreadConfig} :
    ∀ out ∈ (afterReceiveData cfg t data e inFace now).2,
      out.HasRecord (t.pitCS.entries e).inRecords := by
  have hnodup : (t.inFaces e).Nodup := nodup_dedup _
  have hin : ∀ face ∈ t.inFaces e, ∃ r ∈ (t.pitCS.entries e).inRecords, r.face = face :=
    fun face hface => mem_map.mp (mem_dedup.mp hface)
  unfold afterReceiveData
  split
  · refine hasRecord_each NodeAction.dataFace (fun t a ha => ?_) (fun t a face ha => ?_)
      (dataFace_pdData.nodup hnodup) (fun face hface => hin face (dataFace_pdData.subset hface))
    · unfold sendForData
      split <;> first | rfl | exact absurd ha (Option.some_ne_none _)
    · unfold NodeAction.dataFace at ha
      split at ha <;> cases ha <;> exact ⟨data, _, _, rfl⟩
  · refine hasRecord_each some (fun _ _ h => by cases h) (fun t b face h => ?_)
      (by rwa [filterMap_some]) (by rwa [filterMap_some])
    cases h
    exact ⟨data, none, inFace, rfl⟩

lemma keeps_satisfyEach {cfg : ThreadConfig} {first : ℕ} (t : Thread) (e : ℕ) :
    Keeps t.pitCS (satisfyEach cfg data inFace first now t e).1.pitCS := by
  have hsat : SatisfiesAll now [e] t.pitCS (satisfyEach cfg data inFace first now t e).1.pitCS :=
    .cons (satisfies_satisfyEntry cfg (.refl _) data.name first) (.nil _)
  exact hsat.keeps

/-- **Data is sent to in-records of the entries that are found**, with their tokens. -/
lemma hasRecord_processIncomingData {cfg : ThreadConfig} {pitToken : Bytes} :
    ∀ out ∈ (processIncomingData cfg t data inFace pitToken now).2,
      ∃ e ∈ (t.pitCS.admitData cfg.table data now).findInterestPrefixMatchByData cfg.table
          data.name (incomingToken pitToken), out.HasRecord (t.pitCS.entries e).inRecords := by
  intro out hout
  have hentries : (admitData cfg t data now).pitCS.entries = t.pitCS.entries := by
    rw [admitData_pitCS]
    exact (entries_admitData cfg.table t.pitCS data now).1
  rw [← admitData_pitCS, ← hentries]
  unfold processIncomingData at hout
  split at hout
  · exact absurd hout not_mem_nil
  · dsimp only at hout
    split_ifs at hout
    · exact absurd hout not_mem_nil
    · split at hout
      · exact absurd hout not_mem_nil
      · rename_i e hfound
        rw [hfound]
        obtain ⟨r, hr, hgoes⟩ := hasRecord_afterReceiveData out hout
        exact ⟨e, mem_singleton_self e, r, keeps_timer.inRecords e hr, hgoes⟩
      · rename_i first rest _ hfound
        rw [hfound]
        obtain ⟨e, he, t', hkeeps, hout⟩ := mem_each
          (I := fun t' => Keeps (admitData cfg t data now).pitCS t'.pitCS)
          (fun t e h => h.trans (keeps_satisfyEach t e)) SameButUse.refl.keeps out hout
        obtain ⟨r, hr, hout⟩ := mem_flatMap.mp hout
        obtain ⟨hnexthop, htoken⟩ := outgoingData_goes out hout
        exact ⟨e, he, r, hkeeps.inRecords e (mem_of_mem_filter hr), hnexthop.symm, htoken.symm⟩

/-- **Data only satisfies Interests that it names**, if no hash of a component leads the names
astray and the token of the Data does not lead to an entry that asks for another name: every entry
that is found asks for the name, and the Data is only handed to faces that did. -/
theorem data_satisfies_what_it_names (cfg : ThreadConfig) (es : List ThreadEvent)
    (hes : Steps.Guarded (threadStep cfg) (fun t ev => ev.Unmistaken cfg.table t.pitCS) .new es)
    (data : FwData) (inFace : Face) (pitToken : Bytes) (now : Time)
    (hu : (threadRun cfg es).pitCS.Unmistaken cfg.table data.name)
    (htoken : (threadRun cfg es).pitCS.TokenHonest data.name (incomingToken pitToken)) :
    (∀ e ∈ (threadRun cfg es).pitCS.findInterestPrefixMatchByData cfg.table data.name
        (incomingToken pitToken), ((threadRun cfg es).pitCS.entries e).Matches data.name)
      ∧ ∀ out ∈ (processIncomingData cfg (threadRun cfg es) data inFace pitToken now).2,
        ∃ pkt at' pick wish csWish, interest pkt at' pick wish csWish ∈ es
          ∧ pkt.incomingFaceID = out.nexthop ∧ pkt.interest.name <+: data.name
          ∧ (pkt.interest.canBePrefix = false → pkt.interest.name = data.name) := by
  obtain ⟨hwf, hknown⟩ : PitWf (threadRun cfg es).pitCS ∧ Known es (threadRun cfg es).pitCS := by
    refine Steps.history_invariant (I := fun es t => PitWf t.pitCS ∧ Known es t.pitCS) ?_
      ⟨pitWf_new, edged_new, tokenWf_new, fun _ _ h => absurd h not_mem_nil⟩ hes
    intro es ev hguard ⟨hwf, hknown⟩
    have hs := pitStep_threadStep cfg (threadRun cfg es) ev
    exact ⟨hs.pitWf hwf, known_step hwf hs (Steps.guarded_step hguard).2 hknown⟩
  refine ⟨fun e he => (matches_findInterestPrefixMatchByData hwf hknown.edged hknown.tokens hu
    htoken e he).2, fun out hout => ?_⟩
  obtain ⟨e, he, r, hr, hface, -⟩ := hasRecord_processIncomingData out hout
  -- the entry is looked up when the content store has taken the Data
  generalize (threadRun cfg es).pitCS = p at *
  have hentries := (entries_admitData cfg.table p data now).1
  have hadmitted : Known es (p.admitData cfg.table data now) := hknown.admitData hwf data now
  have hmatch : (p.entries e).Matches data.name := by
    have hfound := matches_findInterestPrefixMatchByData (grows_admitData hwf data now).wf
      hadmitted.edged hadmitted.tokens (unmistaken_admitData hwf hu now)
      (tokenHonest_admitData htoken now) e he
    rw [hentries] at hfound
    exact hfound.2
  obtain ⟨pkt, at', pick, wish, csWish, hin, hasked, hname, hcan⟩ := hknown.asked e r hr
  refine ⟨pkt, at', pick, wish, csWish, hin, hasked.trans hface, ?_, fun hexact => ?_⟩
  · rw [hname]
    exact hmatch.isPrefix
  · rw [hname]
    exact hmatch.exact (hcan ▸ hexact)

/-- Face `9` asks for `/a/b`. -/
def oneRequest : List ThreadEvent := unrouted ++ [requestArrival 9 7 4000000000 0]

theorem data_satisfies_what_it_names_once :
    (processIncomingData smallThread (threadRun smallThread oneRequest)
        (dataNamed [['a'], ['b']]) 2 [0, 0, 0, 0, 0, 1] 1000000000).2
        = [.data (dataNamed [['a'], ['b']]) none 9 2 []]
      ∧ ∀ out ∈ (processIncomingData smallThread (threadRun smallThread oneRequest)
          (dataNamed [['a'], ['b']]) 2 [0, 0, 0, 0, 0, 1] 1000000000).2,
        ∃ pkt at' pick wish csWish,
          interest pkt at' pick wish csWish ∈ oneRequest
            ∧ pkt.incomingFaceID = out.nexthop ∧ pkt.interest.name <+: [['a'], ['b']]
            ∧ (pkt.interest.canBePrefix = false → pkt.interest.name = [['a'], ['b']]) := by
  refine ⟨by decide +kernel, (data_satisfies_what_it_names smallThread oneRequest ?_
    (dataNamed [['a'], ['b']]) 2 [0, 0, 0, 0, 0, 1] 1000000000 ?_ ?_).2⟩
  · have hfresh : (threadRun smallThread unrouted).pitCS.Unmistaken smallThread.table
        [['a'], ['b']] := by decide +kernel
    exact ⟨trivial, hfresh, trivial⟩
  · decide +kernel
  · decide +kernel

/-- Face `9` asks for `/a/b`, and face `2` sends `/x` with the token of that entry: the entry is
found, it does not match, and face `9` is handed `/x`. -/
theorem foreign_token_delivers :
    (threadRun smallThread oneRequest).pitCS.findInterestPrefixMatchByData smallThread.table
        [['x']] (incomingToken [0, 0, 0, 0, 0, 1]) = [0]
      ∧ ((threadRun smallThread oneRequest).pitCS.entries 0).encname = [['a'], ['b']]
      ∧ ¬((threadRun smallThread oneRequest).pitCS.entries 0).Matches [['x']]
      ∧ (processIncomingData smallThread (threadRun smallThread oneRequest) (dataNamed [['x']]) 2
          [0, 0, 0, 0, 0, 1] 1000000000).2 = [.data (dataNamed [['x']]) none 9 2 []] := by
  decide +kernel

/-! ### Dead nonces -/

/-- The entry has no records. -/
def NameTreePitEntry.Cleared (entry : NameTreePitEntry) : Prop :=
  entry.inRecords = [] ∧ entry.outRecords = []

/-- The entry is cleared and no other changes, and the nonces of `n` become dead. -/
lemma satisfyEntry_spec (cfg : ThreadConfig) (t : Thread) (name : Name) (e n : ℕ) (now : Time) :
    let t' := satisfyEntry cfg t name e n now
    (t'.pitCS.entries e).Cleared ∧ (∀ e' ≠ e, t'.pitCS.entries e' = t.pitCS.entries e')
      ∧ t'.deadNonceList
        = t.deadNonceList.insertAll cfg.table name (t.pitCS.entries n).outRecords now := by
  refine ⟨?_, fun e' hne => ?_, ?_⟩
  · simp [satisfyEntry, Thread.onEntry, onEntry, NameTreePitEntry.Cleared]
  · simp [satisfyEntry, Thread.onEntry, onEntry, hne]
  · simp only [satisfyEntry, Thread.onEntry, onEntry, update_apply]
    split_ifs with h <;> simp [h]

/-- Entries that are satisfied one after another lose their records, and once the first has none
no further nonce becomes dead. -/
lemma each_satisfyEach {cfg : ThreadConfig} {first : ℕ} {es : List ℕ} (t : Thread) :
    let t' := (Thread.each (satisfyEach cfg data inFace first now) es t).1
    (∀ e, e ∈ es ∨ (t.pitCS.entries e).Cleared → (t'.pitCS.entries e).Cleared)
      ∧ ((t.pitCS.entries first).Cleared → t'.deadNonceList = t.deadNonceList) := by
  induction es generalizing t with
  | nil => simp [Thread.each]
  | cons e es ih =>
    obtain ⟨hcleared, hothers, hdead⟩ := satisfyEntry_spec cfg
      { t with pitCS := t.pitCS.updateExpirationTimer e now } data.name e first now
    obtain ⟨hrest, hsame⟩ := ih (satisfyEach cfg data inFace first now t e).1
    have hkept : ∀ e', (t.pitCS.entries e').Cleared →
        ((satisfyEach cfg data inFace first now t e).1.pitCS.entries e').Cleared := by
      intro e' h
      rcases eq_or_ne e' e with rfl | hne
      · exact hcleared
      · exact ((hothers e' hne).trans (entries_timer_of_ne hne)).symm ▸ h
    refine ⟨fun e' he' => hrest e' ?_, fun hfirst => (hsame (hkept first hfirst)).trans ?_⟩
    · rcases he' with he' | he'
      · rcases mem_cons.mp he' with rfl | he'
        exacts [.inr hcleared, .inl he']
      · exact .inr (hkept e' he')
    · have hnone : ((t.pitCS.updateExpirationTimer e now).entries first).outRecords = [] :=
        (outRecords_timer first).trans hfirst.2
      exact hdead.trans (by rw [hnone]; rfl)

/-- To send Data takes no out-record, and no nonce becomes dead. -/
lemma outRecords_afterReceiveData (cfg : ThreadConfig) (t : Thread) (data : FwData) (e : ℕ)
    (inFace : Face) (now : Time) :
    let t' := (afterReceiveData cfg t data e inFace now).1
    (t'.pitCS.entries e).outRecords = (t.pitCS.entries e).outRecords
      ∧ t'.deadNonceList = t.deadNonceList := by
  let I (t' : Thread) : Prop := (t'.pitCS.entries e).outRecords = (t.pitCS.entries e).outRecords
    ∧ t'.deadNonceList = t.deadNonceList
  have hsend : ∀ (t' : Thread) flags face inFace, I t' →
      I (sendData t' data flags e face inFace).1 := fun t' flags face inFace h => by
    rw [sendData_fst]
    refine ⟨?_, h.2⟩
    rw [← h.1, removeInRecord, onEntry_self]
  unfold afterReceiveData
  split
  · refine each_invariant (I := I) (fun t' a h => ?_) ⟨rfl, rfl⟩
    unfold sendForData
    split
    exacts [hsend _ _ _ _ h, hsend _ _ _ _ h, h]
  · exact each_invariant (I := I) (fun t' face h => hsend _ _ _ _ h) ⟨rfl, rfl⟩

variable {incoming : FaceInfo}

/-- Data clears the entries that it matches, and the nonces of the first of them become dead. -/
lemma processIncomingData_spec (cfg : ThreadConfig) (t : Thread) (data : FwData) (pitToken : Bytes)
    (now : Time) (hface : t.faces inFace = some incoming)
    (hlocal : violatesLocalhost incoming data.name = false) :
    let found := (t.pitCS.admitData cfg.table data now).findInterestPrefixMatchByData cfg.table
      data.name (incomingToken pitToken)
    let t' := (processIncomingData cfg t data inFace pitToken now).1
    (∀ e ∈ found, (t'.pitCS.entries e).Cleared)
      ∧ ∀ e ∈ found.head?, t'.deadNonceList
        = t.deadNonceList.insertAll cfg.table data.name (t.pitCS.entries e).outRecords now := by
  have hadmit : (admitData cfg t data now).pitCS.entries = t.pitCS.entries
      ∧ (admitData cfg t data now).deadNonceList = t.deadNonceList := by
    rw [admitData_pitCS]
    refine ⟨(entries_admitData cfg.table t.pitCS data now).1, ?_⟩
    unfold admitData
    split_ifs <;> rfl
  simp only [processIncomingData, hface, hlocal, Bool.false_eq_true, if_false, ← admitData_pitCS,
    ← hadmit.1, ← hadmit.2]
  generalize admitData cfg t data now = t₁
  generalize t₁.pitCS.findInterestPrefixMatchByData cfg.table data.name _ = found
  rcases found with _ | ⟨e, _ | ⟨e', rest⟩⟩
  · simp
  · obtain ⟨hcleared, -, hdead⟩ := satisfyEntry_spec cfg (afterReceiveData cfg { t₁ with
      pitCS := t₁.pitCS.updateExpirationTimer e now } data e inFace now).1 data.name e e now
    obtain ⟨hrecords, hlist⟩ := outRecords_afterReceiveData cfg { t₁ with
      pitCS := t₁.pitCS.updateExpirationTimer e now } data e inFace now
    rw [hrecords, hlist, outRecords_timer] at hdead
    exact ⟨fun e' he' => mem_singleton.mp he' ▸ hcleared, fun e' he' => by cases he'; exact hdead⟩
  · obtain ⟨hcleared, -, hdead⟩ := satisfyEntry_spec cfg { t₁ with
      pitCS := t₁.pitCS.updateExpirationTimer e now } data.name e e now
    rw [outRecords_timer] at hdead
    refine ⟨fun e'' he'' => (each_satisfyEach t₁).1 e'' (.inl he''), fun e'' he'' => ?_⟩
    cases he''
    exact ((each_satisfyEach (satisfyEach cfg data inFace e now t₁ e).1).2 hcleared).trans hdead

/-- **The nonces of satisfied entries become dead** exactly if those of all but the first entry
that the Data matches are dead already or nonces of the first; all entries that are matched lose
their records. -/
theorem satisfied_nonces_die (cfg : ThreadConfig) (t : Thread) (data : FwData) (inFace : Face)
    (pitToken : Bytes) (now : Time) (hface : t.faces inFace = some incoming)
    (hlocal : violatesLocalhost incoming data.name = false) :
    let found := (t.pitCS.admitData cfg.table data now).findInterestPrefixMatchByData cfg.table
      data.name (incomingToken pitToken)
    let t' := (processIncomingData cfg t data inFace pitToken now).1
    (∀ e ∈ found, (t'.pitCS.entries e).inRecords = [] ∧ (t'.pitCS.entries e).outRecords = [])
      ∧ ((∀ e ∈ found, ∀ record ∈ (t.pitCS.entries e).outRecords,
          t'.deadNonceList.find cfg.table data.name record.latestNonce = true)
        ↔ ∀ e ∈ found.tail, ∀ record ∈ (t.pitCS.entries e).outRecords,
          t.deadNonceList.find cfg.table data.name record.latestNonce = true
            ∨ ∃ first ∈ found.head?, ∃ r ∈ (t.pitCS.entries first).outRecords,
              DeadNonceList.key cfg.table data.name record.latestNonce
                = DeadNonceList.key cfg.table data.name r.latestNonce) := by
  intro found t'
  obtain ⟨hcleared, hdead⟩ := processIncomingData_spec cfg t data pitToken now hface hlocal
  refine ⟨hcleared, ?_⟩
  change ∀ e ∈ found.head?, t'.deadNonceList = _ at hdead
  clear_value found t'
  rcases found with _ | ⟨e, rest⟩
  · simp
  simp only [hdead e rfl, DeadNonceList.find, decide_eq_true_eq, DeadNonceList.mem_insertAll]
  refine ⟨fun h e' he' record hr => (h e' (mem_cons_of_mem e he') record hr).imp_right
    fun hfirst => ⟨e, rfl, hfirst⟩, fun h e' he' record hr => ?_⟩
  rcases mem_cons.mp he' with rfl | he'
  · exact .inr ⟨record, hr, rfl⟩
  · refine (h e' he' record hr).imp_right ?_
    rintro ⟨_, ⟨⟩, hfirst⟩
    exact hfirst

/-- Face `9` asks for `/a/b` and face `8` for what is below, and both requests go to face `2`. -/
def bothForwarded (nonce : ℕ) : Thread :=
  threadRun smallThread (unrouted ++ [.fib fun _ => [⟨2, 1⟩], requestArrival 9 7 4000000000 0,
    .interest ⟨{ plainInterest [['a'], ['b']] nonce with canBePrefix := true }, 8, [], none⟩ 0 0
      [] []])

/-- The thread when face `2` has answered. -/
def bothAnswered (nonce : ℕ) : Thread :=
  (processIncomingData smallThread (bothForwarded nonce) (dataNamed [['a'], ['b']]) 2 [] 0).1

theorem satisfied_nonces_die_both :
    ((bothForwarded 7).pitCS.entries 1).outRecords.map (·.latestNonce) = [7]
      ∧ ∀ record ∈ ((bothForwarded 7).pitCS.entries 1).outRecords, (bothAnswered
        7).deadNonceList.find smallThread.table [['a'], ['b']] record.latestNonce = true :=
  ⟨by decide +kernel, (satisfied_nonces_die smallThread (bothForwarded 7) (dataNamed [['a'], ['b']])
    2 [] 0 (by decide +kernel : (bothForwarded 7).faces 2 = some ⟨false, false⟩)
    (by decide)).2.mpr (by decide +kernel) 1 (by decide +kernel)⟩

/-- The Data matches both entries, and the nonce of the second does not become dead. -/
theorem second_nonce_lives :
    (bothForwarded 6).pitCS.findInterestPrefixMatchByData smallThread.table [['a'], ['b']] none
        = [0, 1]
      ∧ ((bothForwarded 6).pitCS.entries 1).outRecords.map (·.latestNonce) = [6]
      ∧ ((bothAnswered 6).pitCS.entries 1).outRecords = []
      ∧ (bothAnswered 6).deadNonceList.find smallThread.table [['a'], ['b']] 6 = false := by
  decide +kernel

end Mars
