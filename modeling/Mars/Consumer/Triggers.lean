import Mars.Consumer.Ownership

/-!
Fast repairs are triggered at most once.

The detector of a flow triggers a fast repair at most once for each attempt, and a sequence has one
attempt that can trigger for each time it is sent as a new one: an attempt that is installed after a
retransmission belongs to a sequence in recovery, which no scan looks at.

* `ShadowStep`, `shadowStep_flowStep`: what a section does to the detector;
* `WatchStep`, `ShadowStep.watch`: what that means for one sequence;
* `triggered`, `freshSends`: the generations that were triggered for a sequence, and the number of
  times it was sent as a new one in data transmission;
* `Spent`: a triggered generation is not triggered again;
* `credit`: the triggers that a sequence can still have, paid for by its sends.
-/

namespace Mars

open FlowContext ShadowLossDetector List ShadowPendingSequence Consumer Nat AList

variable {cfg : ConsumerConfig} {f : FlowContext} {d : ShadowLossDetector} {op : FlowOp} {k : ℤ}
  {i : ℕ} {s : Consumer} {e : ConsumerEvent} {out : List FlowOut} {now : Time} {n : ℕ}
  {gens : List ℕ} {w w' : Option ShadowPendingSequence} {name : Name} {awaited : Option ℤ} {seq : ℤ}

/-! ### The detector -/

lemma shadowStep_flowStep (hdiscovering : Discovering f) (op : FlowOp) :
    ShadowStep f op (flowStep cfg f op).shadowLoss (op.candidates f) := by
  by_cases hquiet : op.quiet = true
  · exact shadowStep_of_quiet hquiet
  have hcandidates : op.candidates f = [] := by
    cases op <;> first | rfl | exact absurd rfl hquiet
  have hsame : ShadowStep f op f.shadowLoss [] := by
    refine .same ?_
    cases op <;> first | rfl | exact absurd rfl hquiet
  rw [hcandidates]
  obtain ⟨hmode, hstep⟩ | ⟨hmode, hstep⟩ := flowStep_cases hdiscovering
  · generalize flowStep cfg f op = f' at hstep ⊢
    cases hstep with
    | quiet h => exact absurd h hquiet
    | @recorded name seq now isRetransmission =>
      cases isRetransmission with
      | true => exact .recover hmode
      | false => exact .fresh hmode
    | accepted htrue hacc =>
      rw [hacc.shadowLoss]
      exact .data hmode
    | switch now => exact .switch
    | _ => exact hsame
  · generalize flowStep cfg f op = f' at hstep ⊢
    cases hstep with
    | quiet h => exact absurd h hquiet
    | timeout name =>
      rw [(flagsOnly_checkPdState cfg (f.completePD name)).shadowLoss]
      exact hsame
    | @observed _ name _ packet =>
      rw [(flagsOnly_observed cfg (f.completePD name) packet).shadowLoss]
      exact hsame
    | switch now => exact .switch
    | _ => exact hsame

/-! ### One sequence -/

/-- The generations of the candidates for sequence `k`. -/
def generations (k : ℤ) (candidates : List ShadowFastRepairCandidate) : List ℕ :=
  candidates.filterMap fun candidate =>
    if candidate.sequence = k then some candidate.generation else none

/-- What a section can do to the watch of sequence `k`, with the generations that it triggers. -/
inductive WatchStep (k : ℤ) :
    FlowOp → Option ShadowPendingSequence → Option ShadowPendingSequence → List ℕ → Prop
  | gone (op : FlowOp) (watch : Option ShadowPendingSequence) : WatchStep k op watch none []
  | same {op : FlowOp} {p p' : ShadowPendingSequence} (hgeneration : p'.generation = p.generation)
      (htriggered : p'.fastRepairTriggeredGeneration = p.fastRepairTriggeredGeneration)
      (hrecovery : p.inRecovery = true → p'.inRecovery = true) :
      WatchStep k op (some p) (some p') []
  | fresh {name : Name} {now : Time} {p : ShadowPendingSequence} (hgeneration : p.generation = 0)
      (htriggered : p.fastRepairTriggeredGeneration = 0) :
      WatchStep k (.record name k now false) none (some p) []
  | installed {generation : ℕ} {isFastRepair : Bool} {p p' : ShadowPendingSequence}
      (hgeneration : p'.generation = generation) (hrecovery : p'.inRecovery = p.inRecovery) :
      WatchStep k (.install k generation isFastRepair) (some p) (some p') []
  | triggered {now : Time} {p : ShadowPendingSequence} (hdue : p.repairDue now = true) :
      WatchStep k (.scan now) (some p) (some p.trigger) [p.generation]

/-- `p'` has the generations of `p`, and is in recovery if `p` is. -/
structure SameWatch (p p' : ShadowPendingSequence) : Prop where
  generation : p'.generation = p.generation
  triggered : p'.fastRepairTriggeredGeneration = p.fastRepairTriggeredGeneration
  recovery : p.inRecovery = true → p'.inRecovery = true

namespace WatchStep

variable {g : ShadowPendingSequence → ShadowPendingSequence}

lemma map (op : FlowOp) (w : Option ShadowPendingSequence) (hg : ∀ p, SameWatch p (g p)) :
    WatchStep k op w (w.map g) [] := by
  cases w with
  | none => exact .gone op none
  | some p => exact .same (hg p).generation (hg p).triggered (hg p).recovery

lemma refl (op : FlowOp) (w : Option ShadowPendingSequence) : WatchStep k op w w [] := by
  have hmap := map (k := k) (g := id) op w fun _ => ⟨rfl, rfl, id⟩
  rwa [Option.map_id] at hmap

/-- The same for a map of which one entry is changed. -/
lemma modify {m : FinMap ℤ ShadowPendingSequence} (hg : ∀ p, SameWatch p (g p)) :
    WatchStep k op (m.lookup k) ((m.modify seq g).lookup k) [] := by
  rw [lookup_modify]
  split_ifs with hk
  · subst hk
    exact map op _ hg
  · exact refl op _

end WatchStep

/-- What installing an attempt does to the detector. -/
lemma installShadowAttempt_eq {generation : ℕ} {isFastRepair : Bool} :
    ∃ g : ShadowPendingSequence → ShadowPendingSequence,
      f.installShadowAttempt seq generation isFastRepair = { f.shadowLoss with
        pending := f.shadowLoss.pending.modify seq g
        fastRepairSent := f.shadowLoss.fastRepairSent + isFastRepair.toNat }
      ∧ ∀ p, (g p).inRecovery = p.inRecovery
        ∧ (SameWatch p (g p) ∨ (g p).generation = generation)
        ∧ (g p).fastRepairQueuedGeneration = p.fastRepairQueuedGeneration
        ∧ (isFastRepair = false → (g p).fastRepairSent = p.fastRepairSent) := by
  rw [installShadowAttempt, recordAttempt]
  by_cases hvoid : seq ≤ 0 ∨ generation = 0
  · rw [if_pos hvoid]
    cases isFastRepair with
    | false =>
      refine ⟨id, ?_, fun p => ⟨rfl, .inl ⟨rfl, rfl, id⟩, rfl, fun _ => rfl⟩⟩
      rw [AList.modify_id]
      rfl
    | true => exact ⟨_, rfl, fun p => ⟨rfl, .inl ⟨rfl, rfl, id⟩, rfl, by simp⟩⟩
  · rw [if_neg hvoid]
    cases isFastRepair with
    | false => exact ⟨_, rfl, fun p => ⟨rfl, .inr rfl, rfl, fun _ => rfl⟩⟩
    | true =>
      refine ⟨fun p => { p with generation := generation, fastRepairSent := true }, ?_,
        fun p => ⟨rfl, .inr rfl, rfl, by simp⟩⟩
      rw [if_pos rfl, recordFastRepairSend, modify_modify]
      rfl

namespace ShadowLossDetector

lemma watch_recordFreshSend :
    WatchStep k (.record name seq now false) (d.pending.lookup k)
      ((d.recordFreshSend seq now).pending.lookup k) [] := by
  rw [recordFreshSend]
  split_ifs with hold
  · exact .refl _ _
  · rw [lookup_insert_eq]
    split_ifs with hk
    · subst hk
      rw [lookup_eq_none.mpr fun hmem => hold (.inr hmem)]
      exact .fresh rfl rfl
    · exact .refl _ _

lemma watch_install {generation : ℕ} {isFastRepair : Bool} :
    WatchStep k (.install seq generation isFastRepair) (f.shadowLoss.pending.lookup k)
      ((f.installShadowAttempt seq generation isFastRepair).pending.lookup k) [] := by
  obtain ⟨g, heq, hg⟩ := installShadowAttempt_eq
  rw [heq, lookup_modify]
  split_ifs with hk
  · subst hk
    cases f.shadowLoss.pending.lookup k with
    | none => exact .gone _ _
    | some p =>
      obtain ⟨hrecovery, hsame | hgeneration, -⟩ := hg p
      · exact .same hsame.generation hsame.triggered hsame.recovery
      · exact .installed hgeneration hrecovery
  · exact .refl _ _

lemma watch_recordData {payload : List ℕ} :
    WatchStep k (.data payload name now) (d.pending.lookup k)
      ((d.recordData seq now).pending.lookup k) [] := by
  have hresolve : (d.resolve seq now).pending.lookup k = none
      ∨ (d.resolve seq now).pending.lookup k = d.pending.lookup k := by
    rw [resolve]
    split
    · rw [lookup_erase_eq]
      split_ifs
      · exact .inl rfl
      · exact .inr rfl
    · exact .inr rfl
  rw [recordData, lookup_mapVals]
  rcases hresolve with heq | heq <;> rw [heq]
  · exact .gone _ _
  · refine .map _ _ fun p => ?_
    split_ifs <;> exact ⟨rfl, rfl, id⟩

/-- A scan triggers a fast repair for a sequence if it is due, and then only one. -/
lemma generations_dueCandidates :
    generations k ((d.dueCandidates now).insertionSort ShadowFastRepairCandidate.Before)
      = ((d.pending.lookup k).bind fun p =>
        if p.repairDue now then some p.generation else none).toList := by
  have hperm := ((d.dueCandidates now).perm_insertionSort
    ShadowFastRepairCandidate.Before).filterMap fun candidate =>
      if candidate.sequence = k then some candidate.generation else none
  have hdue : generations k (d.dueCandidates now)
      = ((d.pending.lookup k).bind fun p =>
        if p.repairDue now then some p.generation else none).toList := by
    rw [← filterMap_entries, generations, dueCandidates, filterMap_map, filterMap_filter]
    refine filterMap_congr fun e _ => ?_
    simp only [Function.comp_apply]
    split_ifs <;> rfl
  have hsorted : Perm
      (generations k ((d.dueCandidates now).insertionSort ShadowFastRepairCandidate.Before))
      (generations k (d.dueCandidates now)) := hperm
  rw [hdue] at hsorted
  -- a list of at most one element has no other order
  generalize (d.pending.lookup k).bind _ = o at hsorted ⊢
  cases o with
  | none => exact hsorted.eq_nil
  | some generation => exact perm_singleton.mp hsorted

lemma watch_scanIfDue :
    WatchStep k (.scan now) (d.pending.lookup k) ((d.scanIfDue now).1.pending.lookup k)
      (generations k (d.scanIfDue now).2) := by
  rw [scanIfDue]
  split_ifs
  · exact .refl _ _
  · rw [scanPending, generations_dueCandidates, lookup_mapVals]
    cases d.pending.lookup k with
    | none => exact .gone _ _
    | some p =>
      by_cases hdue : p.repairDue now = true
      · simp only [Option.map_some, Option.bind_some, hdue, if_true, Option.toList_some]
        exact .triggered hdue
      · simp only [Option.map_some, Option.bind_some, hdue]
        exact .refl _ _

end ShadowLossDetector

lemma ShadowStep.watch {d' : ShadowLossDetector} {candidates : List ShadowFastRepairCandidate}
    (h : ShadowStep f op d' candidates) :
    WatchStep k op (f.shadowLoss.pending.lookup k) (d'.pending.lookup k)
      (generations k candidates) := by
  cases h with
  | same hop => exact .refl _ _
  | fresh hmode => exact f.shadowLoss.watch_recordFreshSend
  | recover hmode | rto hmode => exact .modify fun _ => ⟨rfl, rfl, fun _ => rfl⟩
  | install hmode => exact watch_install
  | @outcome _ candidate outcome hop =>
    cases outcome with
    | queued =>
      refine .modify fun p => ?_
      split_ifs <;> exact ⟨rfl, rfl, id⟩
    | _ => exact .refl _ _
  | scan hmode => exact f.shadowLoss.watch_scanIfDue
  | data hmode => exact f.shadowLoss.watch_recordData
  | switch => exact .gone _ _

/-! ### The reports -/

/-- The generations that were triggered for sequence `k`. -/
def triggered (k : ℤ) (out : List FlowOut) : List ℕ :=
  out.filterMap fun
    | .triggered seq generation => if seq = k then some generation else none
    | _ => none

/-- The number of times that sequence `k` was sent as a new one in data transmission. -/
def freshSends (k : ℤ) (out : List FlowOut) : ℕ :=
  out.countP fun
    | .recorded mode _ seq isRetransmission => mode = .dt && seq = k && !isRetransmission
    | _ => false

lemma triggered_append {out' : List FlowOut} :
    triggered k (out ++ out') = triggered k out ++ triggered k out' := filterMap_append

lemma freshSends_append {out' : List FlowOut} :
    freshSends k (out ++ out') = freshSends k out + freshSends k out' := countP_append

lemma count_triggered_le {generation : ℕ} :
    out.count (.triggered k generation) ≤ (triggered k out).count generation := by
  induction out with
  | nil => exact le_rfl
  | cons o out ih =>
    by_cases ho : o = .triggered k generation
    · rw [ho, List.count_cons_self]
      have hcons : triggered k (.triggered k generation :: out)
          = generation :: triggered k out := by
        simp [triggered]
      rw [hcons, List.count_cons_self]
      exact succ_le_succ ih
    · rw [List.count_cons_of_ne ho]
      refine ih.trans (List.Sublist.count_le _ ?_)
      exact (List.sublist_cons_self o out).filterMap _

lemma triggered_flowOut : triggered k (flowOut cfg f op) = generations k (op.candidates f) := by
  cases op with
  | scan now =>
    rw [flowOut, triggered, List.filterMap_map]
    rfl
  | record name seq now isRetransmission | data payload name now =>
    rw [flowOut]
    split_ifs <;> rfl
  | _ => rfl

/-! ### Generations are triggered once -/

/-- No watch and no trigger has a generation above `n`, and a triggered generation cannot be
triggered again. -/
structure Spent (n : ℕ) (generations : List ℕ) (watch : Option ShadowPendingSequence) : Prop where
  generation_le : ∀ p, watch = some p → p.generation ≤ n
  triggered_le : ∀ g ∈ generations, g ≤ n
  spent : ∀ p, watch = some p → p.generation ∈ generations →
    p.fastRepairTriggeredGeneration = p.generation
  nodup : generations.Nodup

lemma ShadowPendingSequence.ne_of_repairDue {p : ShadowPendingSequence}
    (h : p.repairDue now = true) :
    p.inRecovery = false ∧ p.fastRepairTriggeredGeneration ≠ p.generation := by
  simp only [repairDue, armed, scanned, Bool.and_eq_true, bne_iff_ne, Bool.not_eq_true'] at h
  exact ⟨h.1.1.1.1.1, h.1.1.2⟩

/-- Without a trigger only the new watch is to be looked at. -/
lemma Spent.watch {n' : ℕ} (h : Spent n gens w) (hn : n ≤ n')
    (hw : ∀ p, w' = some p → p.generation ≤ n'
      ∧ (p.generation ∈ gens → p.fastRepairTriggeredGeneration = p.generation)) :
    Spent n' (gens ++ []) w' := by
  rw [append_nil]
  exact ⟨fun p hp => (hw p hp).1, fun g hg => (h.triggered_le g hg).trans hn,
    fun p hp => (hw p hp).2, h.nodup⟩

/-- An attempt that is installed has a new generation. -/
lemma Spent.step {n' : ℕ} {gens' : List ℕ} (h : Spent n gens w) (hstep : WatchStep k op w w' gens')
    (hn : n ≤ n') (hinstall : ∀ generation isFastRepair, op = .install k generation isFastRepair →
      n < generation ∧ generation ≤ n') : Spent n' (gens ++ gens') w' := by
  cases hstep with
  | gone => exact h.watch hn nofun
  | @same _ p p' hgeneration htrig hrecovery =>
    refine h.watch hn ?_
    rintro q ⟨⟩
    rw [hgeneration, htrig]
    exact ⟨(h.generation_le p rfl).trans hn, h.spent p rfl⟩
  | fresh hgeneration htrig =>
    refine h.watch hn ?_
    rintro q ⟨⟩
    exact ⟨hgeneration.trans_le (zero_le _), fun _ => htrig.trans hgeneration.symm⟩
  | @installed generation isFastRepair p p' hgeneration hrecovery =>
    obtain ⟨hlt, hle⟩ := hinstall generation isFastRepair rfl
    refine h.watch hn ?_
    rintro q ⟨⟩
    rw [hgeneration]
    exact ⟨hle, fun hmem => absurd (h.triggered_le _ hmem) (not_le.mpr hlt)⟩
  | @triggered now p hdue =>
    have hfresh : p.generation ∉ gens := fun hmem =>
      (ne_of_repairDue hdue).2 (h.spent p rfl hmem)
    have hle : p.generation ≤ n' := (h.generation_le p rfl).trans hn
    refine ⟨fun q hq => ?_, fun g hg => ?_, fun q hq _ => ?_, ?_⟩
    · cases hq
      exact hle
    · rcases mem_append.mp hg with hg | hg
      · exact (h.triggered_le g hg).trans hn
      · rw [mem_singleton.mp hg]
        exact hle
    · cases hq
      rfl
    · exact nodup_append.mpr ⟨h.nodup, nodup_singleton _, fun g hg g' hg' heq =>
        hfresh (mem_singleton.mp hg' ▸ heq ▸ hg)⟩

/-! ### Triggers are paid for by sends -/

/-- Whether the sequence can trigger a fast repair without a new attempt. -/
def ShadowPendingSequence.primed (p : ShadowPendingSequence) : Bool :=
  !p.inRecovery && p.fastRepairTriggeredGeneration != p.generation

/-- The triggers that a watched sequence can still have without being sent again, where `awaited`
says that an attempt of it is still to be installed. -/
def credit (awaited : Bool) (watch : Option ShadowPendingSequence) : ℕ :=
  (watch.any primed).toNat
    + (awaited && watch.any fun p => !p.inRecovery).toNat

@[simp] lemma credit_none {awaited : Bool} : credit awaited none = 0 := by
  cases awaited <;> rfl

lemma credit_false_le {awaited : Bool} : credit false w ≤ credit awaited w := by
  rw [credit, credit, Bool.false_and]
  exact Nat.add_le_add_left (Nat.zero_le _) _

lemma credit_true_le : credit true w ≤ credit false w + 1 := by
  rw [credit, credit, Bool.false_and, Nat.add_assoc]
  exact Nat.add_le_add_left (Bool.toNat_le _) _

lemma credit_mono {awaited : Bool} {p p' : ShadowPendingSequence} (h : SameWatch p p') :
    credit awaited (some p') ≤ credit awaited (some p) := by
  simp only [credit, Option.any_some, ShadowPendingSequence.primed, h.generation, h.triggered]
  cases hp : p.inRecovery with
  | true => simp [h.recovery hp]
  | false =>
    refine Nat.add_le_add ?_ ?_
    · cases p'.inRecovery <;> simp
    · cases p'.inRecovery <;> simp

/-- A step without a send or an attempt of the sequence spends what it triggers. -/
lemma WatchStep.credit_le (h : WatchStep k op w w' gens) {awaited : Bool}
    (hrecord : ∀ name now, op ≠ .record name k now false)
    (hinstall : ∀ generation isFastRepair, op ≠ .install k generation isFastRepair) :
    gens.length + credit awaited w' ≤ credit awaited w := by
  cases h with
  | gone => simp
  | same hgeneration htriggered hrecovery =>
    rw [length_nil, zero_add]
    exact credit_mono ⟨hgeneration, htriggered, hrecovery⟩
  | fresh => exact absurd rfl (hrecord _ _)
  | installed => exact absurd rfl (hinstall _ _)
  | @triggered now p hdue =>
    obtain ⟨hrecovery, hne⟩ := ne_of_repairDue hdue
    have hprimed : p.primed = true := by
      rw [primed, hrecovery, bne_iff_ne.mpr hne]
      rfl
    have hspent : p.trigger.primed = false := by
      simp [primed, trigger]
    have hsame : p.trigger.inRecovery = p.inRecovery := rfl
    simp only [credit, Option.any_some, hprimed, hspent, hsame]
    simp

/-- The attempt that was awaited is installed. -/
lemma WatchStep.credit_install_le {generation : ℕ} {isFastRepair : Bool}
    (h : WatchStep k (.install k generation isFastRepair) w w' gens) :
    gens.length + credit false w' ≤ credit true w := by
  cases h with
  | gone => simp
  | same hgeneration htriggered hrecovery =>
    rw [List.length_nil, zero_add]
    exact (credit_mono ⟨hgeneration, htriggered, hrecovery⟩).trans credit_false_le
  | installed hgeneration hrecovery =>
    rename_i p p'
    -- what can trigger now was not in recovery when it was awaited
    have hle : p'.primed.toNat ≤ (!p.inRecovery).toNat := by
      rw [ShadowPendingSequence.primed, hrecovery]
      cases p.inRecovery <;> simp [Bool.toNat_le]
    simp only [credit, Option.any_some, List.length_nil, Bool.false_and, Bool.true_and,
      Bool.toNat_false]
    omega

/-- A new send pays for one trigger. -/
lemma WatchStep.credit_fresh_le (h : WatchStep k (.record name k now false) w w' gens) :
    gens.length + credit true w' ≤ credit false w + 1 := by
  cases h with
  | gone => simp
  | same hgeneration htriggered hrecovery =>
    rw [length_nil, zero_add]
    exact (credit_mono ⟨hgeneration, htriggered, hrecovery⟩).trans credit_true_le
  | fresh hgeneration htriggered =>
    simp [credit, primed, hgeneration, htriggered, Bool.toNat_le]

/-! ### Runs -/

/-- The watch of sequence `k`. -/
def FlowContext.watch (f : FlowContext) (k : ℤ) : Option ShadowPendingSequence :=
  f.shadowLoss.pending.lookup k

/-- The sequence whose Interest the sender has recorded, before `Add` has installed its attempt. -/
def SenderPc.sent : SenderPc → Option ℤ
  | .recorded _ seq _ | .adding _ seq _ => some seq
  | _ => none

/-- The sections that neither send nor install an attempt. -/
def FlowOp.plain : FlowOp → Bool
  | .record _ _ _ _ | .install _ _ _ => false
  | _ => true

/-- A flow that discovers paths watches nothing. -/
lemma watch_eq_none_of_pd (hdiscovering : Discovering f) (hmode : f.mode = .pd)
    (hwatch : ∀ k, f.watch k = none) : (flowStep cfg f op).watch k = none := by
  have hstep : ShadowStep f op (flowStep cfg f op).shadowLoss (op.candidates f) :=
    shadowStep_flowStep hdiscovering op
  rw [watch]
  generalize (flowStep cfg f op).shadowLoss = d at hstep ⊢
  generalize op.candidates f = candidates at hstep
  cases hstep with
  | same => exact hwatch k
  | outcome =>
    refine lookup_eq_none.mpr fun hmem => ?_
    exact lookup_eq_none.mp (hwatch k)
      (mem_recordFastRepairQueueOutcome.mp hmem)
  | switch => rfl
  | fresh hdt | recover hdt | install hdt | rto hdt | scan hdt | data hdt =>
    cases hmode.symm.trans hdt

/-- What the triggers of a flow have to do with its watches, where `awaited` is the sequence whose
attempt is to be installed. -/
structure Watching (n : ℕ) (awaited : Option ℤ) (out : List FlowOut) (f : FlowContext) : Prop where
  discovering : Discovering f
  unwatched : f.mode = .pd → ∀ k, f.watch k = none
  spent : ∀ k, Spent n (triggered k out) (f.watch k)
  paid : ∀ k, (triggered k out).length + credit (awaited = some k) (f.watch k) ≤ freshSends k out

lemma Watching.mono {n' : ℕ} {awaited' : Option ℤ} (h : Watching n awaited out f) (hn : n ≤ n')
    (hawaited : ∀ k, awaited' = some k → awaited = some k) :
    Watching n' awaited' out f where
  discovering := h.discovering
  unwatched := h.unwatched
  spent k :=
    { h.spent k with
      generation_le := fun p hp => ((h.spent k).generation_le p hp).trans hn
      triggered_le := fun g hg => ((h.spent k).triggered_le g hg).trans hn }
  paid k := by
    refine le_trans (Nat.add_le_add_left ?_ _) (h.paid k)
    by_cases hk : awaited' = some k
    · simp [hk, hawaited k hk]
    · simp only [hk, decide_false]
      exact credit_false_le

/-- A section, given what it does for each sequence to the credit and to the number of sends. -/
lemma Watching.step {n' : ℕ} {awaited' : Option ℤ} (h : Watching n awaited out f) (hn : n ≤ n')
    (hinstall : ∀ k generation isFastRepair, op = .install k generation isFastRepair →
      n < generation ∧ generation ≤ n')
    (hpaid : ∀ k, WatchStep k op (f.watch k) ((flowStep cfg f op).watch k)
        (triggered k (flowOut cfg f op)) →
      (triggered k (flowOut cfg f op)).length
          + credit (awaited' = some k) ((flowStep cfg f op).watch k)
        ≤ credit (awaited = some k) (f.watch k) + freshSends k (flowOut cfg f op)) :
    Watching n' awaited' (out ++ flowOut cfg f op) (flowStep cfg f op) := by
  have hstep : ∀ k, WatchStep k op (f.watch k) ((flowStep cfg f op).watch k)
      (triggered k (flowOut cfg f op)) := by
    intro k
    rw [triggered_flowOut]
    exact (shadowStep_flowStep h.discovering op).watch
  refine ⟨discovering_step h.discovering, fun hpd k => ?_, fun k => ?_, fun k => ?_⟩
  · cases hmode : f.mode with
    | pd => exact watch_eq_none_of_pd h.discovering hmode (h.unwatched hmode)
    | dt =>
      have hstep' : DtStep cfg f op (flowStep cfg f op) := dtStep_flowStep hmode
      cases hpd.symm.trans (hstep'.mode_eq hmode)
  · rw [triggered_append]
    exact (h.spent k).step (hstep k) hn fun generation isFastRepair => hinstall k _ _
  · rw [triggered_append, freshSends_append, length_append]
    have hk := hpaid k (hstep k)
    have hold := h.paid k
    omega

lemma Watching.plain (out : List FlowOut) (f : FlowContext) (op : FlowOp)
    (h : Watching n awaited out f) (hop : op.plain = true) :
    Watching n awaited (out ++ flowOut cfg f op) (flowStep cfg f op) := by
  refine h.step le_rfl ?_ fun k hstep => ?_
  · rintro k generation isFastRepair rfl
    cases hop
  · refine (hstep.credit_le ?_ ?_).trans (le_add_right _ _)
    · rintro name now rfl
      cases hop
    · rintro generation isFastRepair rfl
      cases hop

/-- A sequence that was sent again is in recovery. -/
lemma credit_recovery (hmode : f.mode = .dt)
    (hrecorded : (f.recordInterestSend name seq now true).2.2 = true) {awaited : Bool} :
    credit awaited ((flowStep cfg f (.record name seq now true)).watch seq) = 0 := by
  have hshadow : (flowStep cfg f (.record name seq now true)).shadowLoss
      = f.shadowLoss.recordRecoverySend seq := by
    rw [recordInterestSend_dt hmode] at hrecorded
    rw [flowStep, recordInterestSend_dt hmode, if_neg]
    · rfl
    · intro hover
      rw [if_pos hover] at hrecorded
      cases hrecorded
  rw [watch, hshadow, recordRecoverySend, lookup_modify, if_pos rfl]
  cases f.shadowLoss.pending.lookup seq with
  | none => exact credit_none
  | some p => simp [credit, primed]

/-- A section that records an Interest: the attempt of its sequence is then awaited. -/
lemma Watching.record {isRetransmission : Bool} (h : Watching n none out f)
    (hrecorded : (f.recordInterestSend name seq now isRetransmission).2.2 = true) :
    Watching n (some seq) (out ++ flowOut cfg f (.record name seq now isRetransmission))
      (flowStep cfg f (.record name seq now isRetransmission)) := by
  have hout : flowOut cfg f (.record name seq now isRetransmission)
      = [.recorded f.mode name seq isRetransmission] := if_pos hrecorded
  have hpd : f.mode = .pd → ∀ k,
      (flowStep cfg f (.record name seq now isRetransmission)).watch k = none := fun hmode k =>
    watch_eq_none_of_pd h.discovering hmode (h.unwatched hmode)
  refine h.step le_rfl (fun k generation isFastRepair heq => by cases heq) fun k hstep => ?_
  by_cases hk : seq = k
  · subst hk
    cases hmode : f.mode with
    | pd =>
      rw [hpd hmode, credit_none, hout]
      exact zero_le _
    | dt =>
      cases isRetransmission with
      | false =>
        have hsends : freshSends seq (flowOut cfg f (.record name seq now false)) = 1 := by
          rw [hout, hmode]
          simp [freshSends]
        rw [hsends]
        simpa using hstep.credit_fresh_le
      | true =>
        simp only [decide_true, credit_recovery hmode hrecorded, hout]
        exact zero_le _
  · simp only [Option.some.injEq, hk, decide_false, reduceCtorEq]
    refine (hstep.credit_le ?_ ?_).trans (le_add_right _ _)
    · rintro name' now' heq
      cases heq
      exact hk rfl
    · rintro generation isFastRepair heq
      cases heq

/-- A section that installs the attempt that was awaited. -/
lemma Watching.install (cfg : ConsumerConfig) (h : Watching n (some seq) out f)
    (isFastRepair : Bool) :
    Watching (n + 1) none (out ++ flowOut cfg f (.install seq (n + 1) isFastRepair))
      (flowStep cfg f (.install seq (n + 1) isFastRepair)) := by
  refine h.step (le_succ n) (fun k generation isFastRepair' heq => ?_) fun k hstep => ?_
  · cases heq
    exact ⟨lt_succ_self n, le_rfl⟩
  · refine le_trans ?_ (le_add_right _ _)
    by_cases hk : seq = k
    · subst hk
      simpa using hstep.credit_install_le
    · simp only [Option.some.injEq, hk, decide_false, reduceCtorEq]
      refine hstep.credit_le ?_ ?_
      · rintro name now heq
        cases heq
      · rintro generation isFastRepair' heq
        cases heq
        exact hk rfl

/-- The invariant of the consumer. -/
def Consumer.Watching (s : Consumer) (i : ℕ) (out : List FlowOut) : Prop :=
  Mars.Watching s.core.ctl.nextGeneration (s.driver.senders i).pc.sent out (s.core.flows i)

/-- What an event means for the sends and the attempts of flow `i`. -/
lemma Consumer.sections_cases (s : Consumer) :
    (∃ name seq now isRetransmission,
        (s.move cfg e).op = some (.onFlow i (.record name seq now isRetransmission)))
      ∨ (∃ now name seq mode baseRTO, (s.move cfg e).op = some (.addEnd now)
        ∧ s.core.lock = .adding name seq i mode baseRTO)
      ∨ ∀ fop ∈ s.sections cfg i e, fop.plain = true := by
  by_cases hrecord : ∃ name seq now isRetransmission,
      (s.move cfg e).op = some (.onFlow i (.record name seq now isRetransmission))
  · exact .inl hrecord
  by_cases hadd : ∃ now name seq mode baseRTO, (s.move cfg e).op = some (.addEnd now)
      ∧ s.core.lock = .adding name seq i mode baseRTO
  · exact .inr (.inl hadd)
  refine .inr (.inr fun fop hfop => ?_)
  obtain ⟨op, hop, rfl, hmem⟩ := mem_sections hfop
  rcases (s.core.moves op).mem_ops hmem with heq | ⟨hbooks, -⟩ | ⟨now, name, seq, mode, baseRTO,
    rfl, hlock, -⟩
  · rw [heq] at hop
    cases fop with
    | record name seq now isRetransmission => exact absurd ⟨_, _, _, _, hop⟩ hrecord
    | install seq generation isFastRepair =>
      exact absurd hop ((s.moves cfg e).no_install)
    | _ => rfl
  · cases fop with
    | record | install => cases hbooks
    | _ => rfl
  · exact absurd ⟨now, name, seq, mode, baseRTO, hop, hlock⟩ hadd

lemma SenderPc.sent_of_idle {pc : SenderPc} (h : pc.idle = true) : pc.sent = none := by
  cases pc <;> first | rfl | cases h

/-- Only a record makes a sender await an attempt. -/
lemma SenderMoves.sent {op : Option CoreOp} {sender : Sender}
    (h : SenderMoves cfg s e i op sender)
    (hrecord : ∀ name seq now isRetransmission,
      op ≠ some (.onFlow i (.record name seq now isRetransmission)))
    (hsent : sender.pc.sent = some k) : (s.driver.senders i).pc.sent = some k := by
  cases h with
  | stay => exact hsent
  | addEnd => cases hsent
  | signal => exact hsent
  | step hstep =>
    cases hstep with
    | idle hidle hidle' | pdTick hmode hidle hidle' =>
      rw [SenderPc.sent_of_idle hidle'] at hsent
      cases hsent
    | reset now hpc =>
      rw [hpc] at hsent
      cases hsent
    | addBegin hpc =>
      rw [hpc]
      exact hsent
    | record => exact absurd rfl (hrecord _ _ _ _)
    | _ => cases hsent

lemma watching_record {isRetransmission : Bool} (h : s.Watching i out)
    (hop : (s.move cfg e).op = some (.onFlow i (.record name seq now isRetransmission))) :
    (consumerStep cfg s e).Watching i (out ++ flowReports i (consumerHandle cfg s e).2) := by
  have hsender := (s.moves cfg e).sender_cases i
  rw [hop] at hsender
  have hgeneration : (consumerStep cfg s e).core.ctl.nextGeneration
      = s.core.ctl.nextGeneration := by
    rw [core_consumerStep_some hop]
    rfl
  obtain ⟨hpc, hcases⟩ := hsender.record
  rw [Consumer.Watching, hpc] at h
  rw [Consumer.Watching, hgeneration, flows_onFlow hop, flowReports_onFlow hop]
  rcases hcases with ⟨hrefused, hpc'⟩ | ⟨hrecorded, hpc'⟩
  · have hdriver : ((consumerStep cfg s e).driver.senders i).pc = .looping := hpc'
    rw [flowStep, flowOut, recordInterestSend_refused hrefused, hdriver, if_neg Bool.false_ne_true,
      append_nil]
    exact h
  · have hdriver : ((consumerStep cfg s e).driver.senders i).pc
        = .recorded name seq (s.core.flows i).mode := hpc'
    rw [hdriver]
    exact h.record hrecorded

lemma watching_addEnd {mode : TransmissionMode} {baseRTO : ℚ} (h : s.Watching i out)
    (hop : (s.move cfg e).op = some (.addEnd now))
    (hlock : s.core.lock = .adding name seq i mode baseRTO) :
    (consumerStep cfg s e).Watching i (out ++ flowReports i (consumerHandle cfg s e).2) := by
  obtain ⟨hpc, hpc'⟩ := (s.moves cfg e).addEnd_sender hop hlock
  have hmove : s.core.move (.addEnd now)
      = { ctl := s.core.ctl.add name seq i mode baseRTO now
          lock := .free
          flow := i
          ops := [.install seq (s.core.ctl.nextGeneration + 1) (s.core.ctl.isFastRepair name seq)]
          out := [.added name (s.core.ctl.nextGeneration + 1)] } := by
    rw [Core.move, Core.addEndMove, hlock]
  have hsections : s.sections cfg i e
      = [.install seq (s.core.ctl.nextGeneration + 1) (s.core.ctl.isFastRepair name seq)] := by
    rw [Consumer.sections, hop]
    simp only [hmove, if_true]
  have hdriver : ((consumerStep cfg s e).driver.senders i).pc = .looping := hpc'
  have hgeneration : (consumerStep cfg s e).core.ctl.nextGeneration
      = s.core.ctl.nextGeneration + 1 := by
    rw [core_consumerStep_some hop, coreStep, hmove]
    rfl
  rw [Consumer.Watching, hpc] at h
  rw [Consumer.Watching, hgeneration, flows_consumerStep, flowReports_consumerStep, hsections,
    hdriver, flowTrace, Steps.trace_cons, Steps.trace_nil, append_nil]
  exact h.install cfg _

lemma watching_step (h : s.Watching i out) :
    (consumerStep cfg s e).Watching i (out ++ flowReports i (consumerHandle cfg s e).2) := by
  rcases s.sections_cases with ⟨name, seq, now, isRetransmission, hop⟩
    | ⟨now, name, seq, mode, baseRTO, hop, hlock⟩ | hplain
  · exact watching_record h hop
  · exact watching_addEnd h hop hlock
  · by_cases hrecord : ∃ name seq now isRetransmission,
        (s.move cfg e).op = some (.onFlow i (.record name seq now isRetransmission))
    · obtain ⟨name, seq, now, isRetransmission, hop⟩ := hrecord
      exact watching_record h hop
    have hstep := report_step (I := fun out f => Mars.Watching s.core.ctl.nextGeneration
        (s.driver.senders i).pc.sent out f) Mars.Watching.plain h
      (Steps.guarded_of_forall_mem (fun fop hfop _ => hplain fop hfop) _)
    refine hstep.mono ?_ fun k hk => ?_
    · cases hop : (s.move cfg e).op with
      | none => rw [core_consumerStep_none hop]
      | some op =>
        rw [core_consumerStep_some hop]
        exact (s.core.moves op).nextGeneration_le
    · refine ((s.moves cfg e).sender_cases i).sent (fun name seq now isRetransmission hop => ?_) hk
      exact hrecord ⟨_, _, _, _, hop⟩

lemma watching_new : (new cfg now).Watching i [] := by
  have hshadow : ((new cfg now).core.flows i).shadowLoss = {} := by
    simp only [new, newFlowContext]
    cases cfg.initialMode <;> rfl
  have hwatch : ∀ k, ((new cfg now).core.flows i).watch k = none := by
    intro k
    rw [watch, hshadow]
    rfl
  refine ⟨(owned_new cfg now).core.discovering i, fun _ => hwatch, fun k => ?_, fun k => ?_⟩
  · rw [hwatch]
    exact ⟨by simp, fun g hg => absurd hg not_mem_nil, by simp, nodup_nil⟩
  · rw [hwatch, credit_none]
    exact zero_le _

lemma watching_run {es : List ConsumerEvent} :
    (consumerRun cfg (.new cfg now) es).Watching i
      (flowReports i (consumerTrace cfg (.new cfg now) es)) :=
  reports_invariant (I := fun out s => s.Watching i out) (fun _ _ _ h _ => watching_step h)
    watching_new
    (Steps.guarded_of_forall_mem (fun _ _ _ => trivial) _)

end Mars
