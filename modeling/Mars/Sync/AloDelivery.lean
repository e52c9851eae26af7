import Mars.Sync.SvsAlo

/-!
Delivery in order.

* `Delivered`, `delivered_deliver`: what the delivery loop takes from the buffer;
* `InOrder`: what is buffered for a number was fetched for it, and the numbers on the output pipe
  follow each other; `inOrder_step`;
* `publications_in_order_once`: with the null strategy, over any sequence of events.
-/

namespace Mars.Sync.SvsALO

open List

variable {N κ W C S E : Type*} [DecidableEq κ] {o : SvsAloOpts N κ} {s s₀ : SvsALO N κ W C S E}

/-! ### The delivery loop -/

/-- What the loop took from the buffer of an entry: the numbers after the known one, in order. -/
structure Delivered {P : Type*} (entry : SvsDataState P) (r : SvsDataState P × List P) : Prop where
  known : r.1.known = entry.known + r.2.length
  taken : ∀ i pub, r.2[i]? = some pub → entry.pendingPubs.lookup (entry.known + 1 + i) = some pub
  left : ∀ seq pub, r.1.pendingPubs.lookup seq = some pub → entry.pendingPubs.lookup seq = some pub
  pending : r.1.pending = entry.pending
  latest : r.1.latest = entry.latest

lemma delivered_deliver {P : Type*} (n : ℕ) (entry : SvsDataState P) :
    Delivered entry (deliver n entry) := by
  induction n generalizing entry with
  | zero => exact ⟨rfl, (fun _ _ h => nomatch h), fun _ _ h => h, rfl, rfl⟩
  | succ n ih =>
    rw [deliver]
    split
    · exact ⟨rfl, (fun _ _ h => nomatch h), fun _ _ h => h, rfl, rfl⟩
    · next pub hnext =>
        obtain ⟨hknown, htaken, hleft, hpending, hlatest⟩ := ih
          { entry with
            known := entry.known + 1
            pendingPubs := entry.pendingPubs.erase (entry.known + 1) }
        have hsub : ∀ seq pub, (entry.pendingPubs.erase (entry.known + 1)).lookup seq = some pub →
            entry.pendingPubs.lookup seq = some pub := by
          intro seq pub h
          by_cases hseq : seq = entry.known + 1
          · rw [hseq, AList.lookup_erase] at h
            exact nomatch h
          · rwa [AList.lookup_erase_ne hseq] at h
        refine ⟨?_, fun i pub' h => ?_, fun seq pub h => hsub seq pub (hleft seq pub h), hpending,
          hlatest⟩
        · rw [hknown, length_cons, Nat.add_assoc, Nat.add_comm 1]
        · cases i with
          | zero => exact Option.some.inj h ▸ hnext
          | succ i =>
            have hlater := hsub _ _ (htaken i pub' h)
            rwa [Nat.add_assoc, Nat.add_comm 1 i] at hlater

/-- Every number up to the one that is reached was in the buffer. -/
lemma Delivered.mem {P : Type*} {entry : SvsDataState P} {r : SvsDataState P × List P}
    (hr : Delivered entry r) {t : ℕ} (hlt : entry.known < t) (hle : t ≤ r.1.known) :
    t ∈ entry.pendingPubs := by
  rw [hr.known] at hle
  have hi : t - (entry.known + 1) < r.2.length := by omega
  have ht := hr.taken _ _ (getElem?_eq_getElem hi)
  rw [Nat.add_sub_cancel' hlt] at ht
  exact AList.mem_iff_lookup.mpr ⟨_, ht⟩

/-! ### The invariant -/

/-- A publication carries what a fetch for its number gave. -/
def Recorded (results : List (AloFetch N × Fetched N C)) (pub : SvsPub N C S) : Prop :=
  ∃ data, (⟨pub.publisher, pub.bootTime, pub.seqNum⟩, data) ∈ results ∧
    pub.content = data.content ∧ pub.dataName = data.name

/-- A publication is in the buffer of its publisher and boot time, under its number. -/
structure Buffered (o : SvsAloOpts N κ) (results : List (AloFetch N × Fetched N C)) (hash : κ)
    (boot seq : ℕ) (pub : SvsPub N C S) : Prop where
  publisher : o.svs.tlvStr pub.publisher = hash
  bootTime : pub.bootTime = boot
  seqNum : pub.seqNum = seq
  recorded : Recorded results pub

/-- Nothing was delivered, and nothing was taken out of a buffer. -/
structure Quiet (s s' : SvsALO N κ W C S E) : Prop where
  known : ∀ hash boot, (SvMap.get s'.state hash boot).known = (SvMap.get s.state hash boot).known
  pendingPubs : ∀ hash boot,
    (SvMap.get s'.state hash boot).pendingPubs = (SvMap.get s.state hash boot).pendingPubs
  outpipe : s'.outpipe = s.outpipe
  results : s.results ⊆ s'.results
  snapFetching : s'.snapFetching = s.snapFetching
  snapFailed : s'.snapFailed = s.snapFailed

lemma quiet_of_rechecks (hnull : o.snapshot = .null) {s' : SvsALO N κ W C S E} (h : Rechecks o s s')
    : Quiet s s' where
  known hash boot := by
    rcases (h.entries hash boot).window with hsame | hpassed
    · exact hsame.1
    · exact absurd hnull hpassed.1
  pendingPubs hash boot := (h.entries hash boot).pendingPubs
  outpipe := h.outpipe
  results := fun _ hr => h.results ▸ hr
  snapFetching := h.snapFetching hnull
  snapFailed := h.snapFailed

lemma quiet_setEntry (s : SvsALO N κ W C S E) {node : N} {boot : ℕ}
    {value : SvsDataState (SvsPub N C S)} (hknown : value.known = (s.entry o node boot).known)
    (hpubs : value.pendingPubs = (s.entry o node boot).pendingPubs) :
    Quiet s (s.setEntry o node boot value) where
  known hash boot' := by
    rw [get_setEntry]
    split_ifs with hkey
    · rw [hknown, hkey.1, hkey.2, entry]
    · rfl
  pendingPubs hash boot' := by
    rw [get_setEntry]
    split_ifs with hkey
    · rw [hpubs, hkey.1, hkey.2, entry]
    · rfl
  outpipe := rfl
  results := fun _ hr => hr
  snapFetching := rfl
  snapFailed := rfl

lemma Recorded.mono {results results' : List (AloFetch N × Fetched N C)} {pub : SvsPub N C S}
    (h : Recorded results pub) (hsub : results ⊆ results') : Recorded results' pub := by
  obtain ⟨data, hmem, hdata⟩ := h
  exact ⟨data, hsub hmem, hdata⟩

variable [DecidableEq N]

/-- The numbers of the publications of a publisher and a boot time. -/
def numbers (node : N) (boot : ℕ) (pubs : List (SvsPub N C S)) : List ℕ :=
  (pubs.filter fun pub => pub.publisher = node ∧ pub.bootTime = boot).map SvsPub.seqNum

/-- From `s₀` on everything was delivered in order. -/
structure InOrder (o : SvsAloOpts N κ) (s₀ s : SvsALO N κ W C S E) : Prop where
  buffered : ∀ hash boot seq pub,
    (SvMap.get s.state hash boot).pendingPubs.lookup seq = some pub →
      Buffered o s.results hash boot seq pub
  delivered : ∀ node boot, node ≠ o.name →
    ∃ n, (s.entry o node boot).known = (s₀.entry o node boot).known + n ∧
      numbers node boot s.outpipe = range' ((s₀.entry o node boot).known + 1) n
  recorded : ∀ pub ∈ s.outpipe, Recorded s.results pub
  snapFetching : s.snapFetching = []
  snapFailed : s.snapFailed = []

lemma InOrder.of_quiet {s' : SvsALO N κ W C S E} (h : InOrder o s₀ s) (hq : Quiet s s') :
    InOrder o s₀ s' where
  buffered hash boot seq pub hpub := by
    rw [hq.pendingPubs] at hpub
    obtain ⟨hpublisher, hboot, hseq, hrecorded⟩ := h.buffered hash boot seq pub hpub
    exact ⟨hpublisher, hboot, hseq, hrecorded.mono hq.results⟩
  delivered node boot hnode := by
    rw [hq.outpipe, entry, hq.known]
    exact h.delivered node boot hnode
  recorded pub hpub := (h.recorded pub (hq.outpipe ▸ hpub)).mono hq.results
  snapFetching := hq.snapFetching.trans h.snapFetching
  snapFailed := hq.snapFailed.trans h.snapFailed

omit [DecidableEq κ] in
lemma numbers_append {node : N} {boot : ℕ} {pubs pubs' : List (SvsPub N C S)} :
    numbers node boot (pubs ++ pubs') = numbers node boot pubs ++ numbers node boot pubs' := by
  rw [numbers, filter_append, map_append]
  rfl

/-- Publications that are all of one publisher and boot time. -/
lemma numbers_of_forall {node' : N} {boot' : ℕ} {pubs : List (SvsPub N C S)}
    (h : ∀ pub ∈ pubs, pub.publisher = node' ∧ pub.bootTime = boot') {node : N} {boot : ℕ} :
    numbers node boot pubs
      = if node' = node ∧ boot' = boot then pubs.map SvsPub.seqNum else [] := by
  rw [numbers]
  split_ifs with hkey
  · rw [filter_eq_self.mpr fun pub hpub => ?_]
    obtain ⟨hpublisher, hboot⟩ := h pub hpub
    exact decide_eq_true ⟨hpublisher.trans hkey.1, hboot.trans hkey.2⟩
  · rw [filter_eq_nil_iff.mpr fun pub hpub => ?_, map_nil]
    obtain ⟨rfl, rfl⟩ := h pub hpub
    exact fun hdec => hkey (of_decide_eq_true hdec)

/-- What the loop takes from a buffer is put on the output pipe. -/
lemma InOrder.deliver (h : InOrder o s₀ s) {node : N} {boot : ℕ} {e : SvsDataState (SvsPub N C S)}
    (hknown : e.known = (s.entry o node boot).known)
    (hbuffered : ∀ seq pub, e.pendingPubs.lookup seq = some pub →
      Buffered o s.results (o.svs.tlvStr node) boot seq pub)
    {r : SvsDataState (SvsPub N C S) × List (SvsPub N C S)} (hr : Delivered e r)
    {subscribers : List S} :
    InOrder o s₀
      { s.setEntry o node boot r.1 with
        outpipe := s.outpipe ++ r.2.map fun pub => { pub with subcribers := subscribers } } := by
  have hmem : ∀ pub ∈ r.2, ∃ seq, Buffered o s.results (o.svs.tlvStr node) boot seq pub := by
    intro pub hpub
    obtain ⟨i, hi⟩ := mem_iff_getElem?.mp hpub
    exact ⟨_, hbuffered _ pub (hr.taken i pub hi)⟩
  have hseqs : r.2.map SvsPub.seqNum = range' (e.known + 1) r.2.length := by
    refine ext_getElem (by rw [length_map, length_range']) fun i hi _ => ?_
    rw [length_map] at hi
    rw [getElem_map, getElem_range', Nat.one_mul]
    exact (hbuffered _ _ (hr.taken i _ (getElem?_eq_getElem hi))).seqNum
  refine ⟨fun hash boot' seq pub hpub => ?_, fun node' boot' hnode' => ?_, fun pub' hpub' => ?_,
    h.snapFetching, h.snapFailed⟩
  · rw [get_setEntry] at hpub
    split_ifs at hpub with hkey
    · rw [hkey.1, hkey.2]
      exact hbuffered seq pub (hr.left seq pub hpub)
    · exact h.buffered hash boot' seq pub hpub
  · obtain ⟨n, hn, hnumbers⟩ := h.delivered node' boot' hnode'
    have hof : ∀ pub ∈ r.2.map fun pub => { pub with subcribers := subscribers },
        pub.publisher = node ∧ pub.bootTime = boot := by
      intro pub' hpub'
      obtain ⟨pub, hpub, rfl⟩ := mem_map.mp hpub'
      obtain ⟨seq, hseq⟩ := hmem pub hpub
      exact ⟨o.tlvStr_injective hseq.publisher, hseq.bootTime⟩
    rw [numbers_append, numbers_of_forall hof, entry, get_setEntry]
    by_cases hkey : node = node' ∧ boot = boot'
    · obtain ⟨rfl, rfl⟩ := hkey
      refine ⟨n + r.2.length, ?_, ?_⟩
      · rw [if_pos ⟨rfl, rfl⟩, hr.known, hknown, hn, Nat.add_assoc]
      · rw [if_pos ⟨rfl, rfl⟩, map_map, hnumbers]
        exact (congrArg _ (hseqs.trans (by rw [hknown, hn, Nat.add_right_comm]))).trans
          range'_append_1
    · refine ⟨n, ?_, ?_⟩
      · rw [if_neg fun hk => hkey ⟨o.tlvStr_injective hk.1.symm, hk.2.symm⟩]
        exact hn
      · rw [if_neg hkey, append_nil, hnumbers]
  · rcases mem_append.mp hpub' with hold | hnew
    · exact h.recorded pub' hold
    · obtain ⟨pub, hpub, rfl⟩ := mem_map.mp hnew
      obtain ⟨seq, hseq⟩ := hmem pub hpub
      exact hseq.recorded

/-- The callback of a fetch delivers in order what was fetched. -/
lemma InOrder.onConsumed (h : InOrder o s₀ s) {f : AloFetch N} {status : Except E (Fetched N C)}
    (hdata : ∀ data, status = .ok data → (f, data) ∈ s.results) :
    InOrder o s₀ (s.onConsumed o f status) := by
  rw [SvsALO.onConsumed]
  dsimp only
  split_ifs
  · exact h
  · exact h.of_quiet (quiet_setEntry s rfl rfl)
  · cases status with
    | error err => exact h.of_quiet ⟨fun _ _ => rfl, fun _ _ => rfl, rfl, fun _ hr => hr, rfl, rfl⟩
    | ok data =>
      refine h.deliver (e := { s.entry o f.node f.boot with
        pendingPubs := (s.entry o f.node f.boot).pendingPubs.insert f.seq _ }) rfl
        (fun seq pub hpub => ?_) (delivered_deliver _ _)
      rw [AList.lookup_insert_eq] at hpub
      split_ifs at hpub with hseq
      · obtain rfl := Option.some.inj hpub
        exact ⟨rfl, rfl, hseq.symm, data, hdata data rfl, rfl, rfl⟩
      · exact h.buffered _ _ seq pub hpub

lemma InOrder.produceObject (h : InOrder o s₀ s) {produced : Bool} :
    InOrder o s₀ (s.produceObject o produced) := by
  rw [SvsALO.produceObject]
  dsimp only
  split_ifs
  · refine ⟨fun hash boot seq pub hpub => ?_, fun node boot hnode => ?_, h.recorded, h.snapFetching,
      h.snapFailed⟩
    · rw [get_setEntry] at hpub
      split_ifs at hpub
      · cases hpub
      · exact h.buffered hash boot seq pub hpub
    · rw [entry, get_setEntry, if_neg fun hkey => hnode (o.tlvStr_injective hkey.1)]
      exact h.delivered node boot hnode
  · exact h

/-- Every event keeps the order. -/
lemma inOrder_step (hnull : o.snapshot = .null) (h : InOrder o s₀ s) (e : AloEvent N κ W C S E) :
    InOrder o s₀ (s.step o e) := by
  have hsame : ∀ {s' : SvsALO N κ W C S E}, s'.state = s.state → s'.outpipe = s.outpipe →
      s.results ⊆ s'.results → s'.snapFetching = s.snapFetching → s'.snapFailed = s.snapFailed →
      InOrder o s₀ s' := fun hstate hout hres hsnap hfailed =>
    h.of_quiet ⟨fun _ _ => by rw [hstate], fun _ _ => by rw [hstate], hout, hres, hsnap, hfailed⟩
  cases e with
  | receive args now | timerExpired | sendSyncInterest | unsubscribe pfx =>
    exact hsame rfl rfl (fun _ hr => hr) rfl rfl
  | update congested =>
    rw [step]
    split
    · exact h
    · next update updates _ =>
        have hpopped : InOrder o s₀ { s with updates } :=
          hsame rfl rfl (fun _ hr => hr) rfl rfl
        have hlatest : Quiet { s with updates }
            (setEntry o { s with updates } update.name update.boot
              { entry o { s with updates } update.name update.boot with
                latest := update.high }) :=
          quiet_setEntry _ rfl rfl
        exact (hpopped.of_quiet hlatest).of_quiet
          (quiet_of_rechecks hnull (rechecks_consumeCheck congested _ _))
  | fetched k status congested =>
    rw [step]
    split
    · exact h
    · next f _ =>
        have hrecorded : InOrder o s₀
            { s with
              fetching := s.fetching.eraseIdx k
              results := s.results ++ status.toOption.toList.map fun data => (f, data) } :=
          hsame rfl rfl (subset_append_left _ _) rfl rfl
        refine (hrecorded.onConsumed ?_).of_quiet
          (quiet_of_rechecks hnull (rechecks_consumeCheck congested _ _))
        rintro data rfl
        exact mem_append_right _ mem_cons_self
  | retry k =>
    rw [step]
    split
    · exact h
    · exact hsame rfl rfl (fun _ hr => hr) rfl rfl
  | snapFetched k status order congested =>
    simp only [step, h.snapFetching, getElem?_nil]
    exact h
  | snapRetry k order congested =>
    simp only [step, h.snapFailed, getElem?_nil]
    exact h
  | subscribe pfx callback order congested =>
    have hsubscribed : InOrder o s₀
        { s with nodePs := s.nodePs.insert (o.svs.tlvStr pfx) ⟨pfx, callback⟩ } :=
      hsame rfl rfl (fun _ hr => hr) rfl rfl
    exact hsubscribed.of_quiet (quiet_of_rechecks hnull (rechecks_consumeEach congested _))
  | publish produced => exact h.produceObject

lemma inOrder_new (initial : List (StateVectorEntry N)) :
    InOrder o (new o initial) (new o initial : SvsALO N κ W C S E) where
  buffered hash boot seq pub hpub := by
    rw [get_new] at hpub
    exact nomatch hpub
  delivered node boot _ := ⟨0, rfl, rfl⟩
  recorded pub hpub := nomatch hpub
  snapFetching := rfl
  snapFailed := rfl

/-- **Delivery is in order and exactly once**: with the null strategy, after any sequence of events,
the publications of another publisher on the output pipe are numbered from the one after the initial
known number on, one by one, and each carries what a fetch for its number gave. -/
theorem publications_in_order_once (hnull : o.snapshot = .null)
    (initial : List (StateVectorEntry N)) (es : List (AloEvent N κ W C S E)) {node : N}
    (hnode : node ≠ o.name) (boot : ℕ) :
    let s₀ : SvsALO N κ W C S E := new o initial
    let s := Steps.run (step o) s₀ es
    (∃ n, numbers node boot s.outpipe = range' ((s₀.entry o node boot).known + 1) n) ∧
      ∀ pub ∈ s.outpipe, Recorded s.results pub := by
  have h := Steps.run_invariant (I := InOrder o (new o initial))
    (fun s e hs => inOrder_step hnull hs e) (inOrder_new initial) es
  obtain ⟨n, -, hnumbers⟩ := h.delivered node boot hnode
  exact ⟨⟨n, hnumbers⟩, h.recorded⟩

/-- Names that are their own keys, with the null strategy. -/
def plainOpts : SvsAloOpts ℕ ℕ where
  name := 0
  svs := ⟨1, 200000000, false, id⟩
  snapshot := .null
  maxPipelineSize := 0
  nameFromTlvStr := some
  isPrefix a b := a = b
  nameFromTlvStr_tlvStr _ := rfl

/-- Two publications of publisher `7` are fetched, and the second arrives first. -/
def outOfOrder : List (AloEvent ℕ ℕ Unit ℕ Unit Unit) :=
  [.subscribe 7 () [] fun _ _ _ => false, .receive ⟨[⟨7, [⟨1, 2⟩]⟩], ()⟩ 0,
    .update fun _ _ _ => false, .fetched 1 (.ok ⟨7, some 200, 0⟩) fun _ _ _ => false,
    .fetched 0 (.ok ⟨7, some 100, 0⟩) fun _ _ _ => false]

theorem two_publications_in_order :
    plainOpts.snapshot = .null ∧ 7 ≠ plainOpts.name ∧
      (Steps.run (step plainOpts) (new plainOpts []) outOfOrder).outpipe.map
        (fun pub => (pub.seqNum, pub.content)) = [(1, some 100), (2, some 200)] ∧
      ((∃ n, numbers 7 1 (Steps.run (step plainOpts) (new plainOpts []) outOfOrder).outpipe
          = range' 1 n) ∧
        ∀ pub ∈ (Steps.run (step plainOpts) (new plainOpts []) outOfOrder).outpipe,
          Recorded (Steps.run (step plainOpts) (new plainOpts []) outOfOrder).results pub) :=
  ⟨rfl, by decide, by decide +kernel,
    publications_in_order_once (o := plainOpts) rfl [] outOfOrder (by decide) 1⟩

end Mars.Sync.SvsALO
