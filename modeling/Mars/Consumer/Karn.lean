import Mars.Consumer.Ownership

/-!
Karn's rule: the round trip time is measured only on sequences that were sent once.

A pending Interest remembers whether it was retransmitted, and Data for one that was is no sample.
That fails if a sequence is sent twice as a new one, as around the switch to data transmission: the
sender goes on with its old sequence numbers until it is told to reset them, and then comes to the
same numbers again.

* `dtRecords`: the number of Interests that were recorded for a sequence in data transmission;
* `RecordsClean`: a new Interest of the transfer has the name of its sequence, and none is pending
  under it;
* `Karn`: the invariant; `samples_unambiguous`, and `switch_makes_sample_ambiguous` without the
  condition.
-/

namespace Mars

open FlowContext FlowOut List AList Consumer

variable {cfg : ConsumerConfig} {f f' : FlowContext} {out : List FlowOut} {s : Consumer}
  {e : ConsumerEvent} {i : ℕ} {k : ℤ} {name : Name} {out' : List FlowOut} {op : FlowOp}

/-- Whether a report is of an Interest for sequence `k`, recorded in data transmission. -/
def FlowOut.recordsDT (k : ℤ) : FlowOut → Bool
  | .recorded mode _ seq _ => mode = .dt && seq = k
  | _ => false

/-- The number of Interests that were recorded for sequence `k` in data transmission. -/
def dtRecords (k : ℤ) (out : List FlowOut) : ℕ := out.countP (recordsDT k)

lemma dtRecords_append :
    dtRecords k (out ++ out') = dtRecords k out + dtRecords k out' := countP_append

/-- An Interest that is recorded in data transmission has the name of its sequence; a new one finds
none pending under it. -/
def RecordsClean (f : FlowContext) : FlowOp → Prop
  | .record name seq _ isRetransmission => f.mode = .dt →
      name = f.interestNameForSeq seq ∧ (isRetransmission = false → name ∉ f.pendingSends)
  | _ => True

instance (f : FlowContext) : ∀ op, Decidable (RecordsClean f op)
  | .record _ _ _ _ => inferInstanceAs (Decidable (_ → _ ∧ (_ → _)))
  | .queueRetransmission _ | .queueRepair _ | .repairOutcome _ _ | .pop | .install _ _ _
  | .shadowRTO _ _ | .dtRTO | .scan _ | .nack _ | .timeout _ | .data _ _ _ | .pdTick | .setRate _
  | .switch _ => isTrue trivial

/-- What the consumer sees to: Interests are recorded under names of their sequences, timeouts are
for names of path discovery, and a flow switches only once. -/
def OwnSections (cfg : ConsumerConfig) (i : ℕ) (f : FlowContext) : FlowOp → Prop
  | .record name seq _ _ => cfg.InRange seq ∧ cfg.Names i seq f.mode name
  | .timeout name => ∀ k, name ≠ cfg.dtName i k
  | .switch _ => f.mode = .pd
  | _ => True

lemma OwnSections.namesRecorded (h : OwnSections cfg i f op) : NamesRecorded cfg i f op := by
  cases op <;> first | exact h | trivial

/-! ### The invariant -/

/-- What the pending Interests of a flow remember about its reports. -/
structure Karn (cfg : ConsumerConfig) (i : ℕ) (out : List FlowOut) (f : FlowContext) : Prop where
  discovering : Discovering f
  named : FlowNamed cfg i f
  pending : f.mode = .dt → ∀ name ∈ f.pendingSends, ∃ k, cfg.InRange k ∧ name = cfg.dtName i k
  unsent : f.mode = .pd → ∀ k, dtRecords k out = 0
  unpending : f.mode = .dt → f.isFinished = false → ∀ k, k ∉ f.receivedSeqs →
    cfg.dtName i k ∉ f.pendingSends → dtRecords k out = 0
  clean : f.mode = .dt → ∀ k entry, f.pendingSends.lookup (cfg.dtName i k) = some entry →
    entry.retransmitted = false → dtRecords k out = 1
  sampled : ∀ k, .sampled k ∈ out → f.mode = .dt ∧ k ∈ f.receivedSeqs ∧ dtRecords k out = 1

/-- Whether a report says nothing about sends and samples. -/
def FlowOut.neutral : FlowOut → Bool
  | .recorded mode _ _ _ => mode ≠ .dt
  | .sampled _ => false
  | _ => true

lemma dtRecords_of_neutral (h : ∀ o ∈ out, neutral o = true) : dtRecords k out = 0 := by
  rw [dtRecords, countP_eq_zero]
  intro o ho hrecords
  have hneutral := h o ho
  cases o with
  | recorded mode name seq isRetransmission =>
    simp only [neutral, recordsDT, decide_eq_true_eq, Bool.and_eq_true] at *
    exact hneutral hrecords.1
  | _ => cases hrecords

lemma mem_sampled_of_neutral (h : ∀ o ∈ out', neutral o = true) (hk : .sampled k ∈ out ++ out') :
    .sampled k ∈ out := by
  rcases mem_append.mp hk with hk | hk
  · exact hk
  · cases h _ hk

lemma dtName_injective : Function.Injective (cfg.dtName i) :=
  seqName_injective

/-- The invariant does not depend on neutral reports, nor on what is not named in it. -/
lemma Karn.neutral (h : Karn cfg i out f) (hout : ∀ o ∈ out', neutral o = true) :
    Karn cfg i (out ++ out') f := by
  have hcount : ∀ k, dtRecords k (out ++ out') = dtRecords k out := by
    intro k
    rw [dtRecords_append, dtRecords_of_neutral hout, Nat.add_zero]
  refine { h with unsent := ?_, unpending := ?_, clean := ?_, sampled := fun k hk => ?_ }
  · simpa only [hcount] using h.unsent
  · simpa only [hcount] using h.unpending
  · simpa only [hcount] using h.clean
  · rw [hcount]
    exact h.sampled k (mem_sampled_of_neutral hout hk)

/-- The reports of a flow in path discovery, and of a section that records and accepts nothing. -/
lemma neutral_flowOut
    (hrecord : ∀ name seq now isRetransmission, op = .record name seq now isRetransmission →
      f.mode = .dt → (f.recordInterestSend name seq now isRetransmission).2.2 = false)
    (hdata : ∀ payload name now, op = .data payload name now → f.mode = .dt →
      (f.onData cfg payload name now).2 = false) : ∀ o ∈ flowOut cfg f op, neutral o = true := by
  intro o ho
  cases op with
  | record name seq now isRetransmission =>
    rw [flowOut] at ho
    split_ifs at ho with hrecorded
    · rw [mem_singleton.mp ho]
      refine decide_eq_true fun hmode => ?_
      rw [hrecord _ _ _ _ rfl hmode] at hrecorded
      cases hrecorded
    · cases ho
  | data payload name now =>
    have hrefused : ¬(f.mode = .dt ∧ (f.onData cfg payload name now).2) := by
      rintro ⟨hmode, haccepted⟩
      cases (hdata _ _ _ rfl hmode).symm.trans haccepted
    rw [flowOut, if_neg hrefused] at ho
    cases ho
  | scan now =>
    obtain ⟨candidate, -, rfl⟩ := mem_map.mp ho
    rfl
  | _ => cases ho

namespace Karn

section

variable (h : Karn cfg i out f)
include h

/-- The invariant depends on the mode, on what is pending and on what was received. -/
lemma congr (hdiscovering : Discovering f') (hnamed : FlowNamed cfg i f')
    (hmode : f'.mode = f.mode) (hfinished : f'.isFinished = f.isFinished)
    (hreceived : f'.receivedSeqs = f.receivedSeqs)
    (hpending : f'.pendingSends = f.pendingSends) : Karn cfg i out f' where
  discovering := hdiscovering
  named := hnamed
  pending := by
    rw [hmode, hpending]
    exact h.pending
  unsent := by
    rw [hmode]
    exact h.unsent
  unpending := by
    rw [hmode, hfinished, hreceived, hpending]
    exact h.unpending
  clean := by
    rw [hmode, hpending]
    exact h.clean
  sampled := by
    rw [hmode, hreceived]
    exact h.sampled

/-- A flow in path discovery has sent nothing of the transfer. -/
lemma of_pd (hmode : f.mode = .pd) (hdiscovering : Discovering f')
    (hnamed : FlowNamed cfg i f') (hcase : f'.mode = .pd ∨ f'.pendingSends = ∅) :
    Karn cfg i out f' where
  discovering := hdiscovering
  named := hnamed
  pending hdt name hname := by
    rcases hcase with hpd | hempty
    · cases hpd.symm.trans hdt
    · rw [hempty] at hname
      exact absurd hname (notMem_empty name)
  unsent _ := h.unsent hmode
  unpending _ _ k _ _ := h.unsent hmode k
  clean hdt k entry hentry := by
    rcases hcase with hpd | hempty
    · cases hpd.symm.trans hdt
    · rw [hempty] at hentry
      cases hentry
  sampled k hk := by cases hmode.symm.trans (h.sampled k hk).1

/-- A name may be dropped if its sequence is received. -/
lemma erase (hdiscovering : Discovering f') (hnamed : FlowNamed cfg i f')
    (hmode : f'.mode = f.mode) (hfinished : f'.isFinished = f.isFinished)
    (hreceived : f'.receivedSeqs = f.receivedSeqs)
    (hpending : f'.pendingSends = f.pendingSends.erase name)
    (hname : ∀ k, name = cfg.dtName i k → name ∈ f.pendingSends →
      k ∈ f.receivedSeqs ∨ f.isFinished = true) : Karn cfg i out f' where
  discovering := hdiscovering
  named := hnamed
  pending hdt name' hname' := by
    rw [hpending] at hname'
    exact h.pending (hmode ▸ hdt) name' (mem_erase.mp hname').2
  unsent hpd := h.unsent (hmode ▸ hpd)
  unpending hdt hunfinished k hunreceived hunpending := by
    rw [hfinished] at hunfinished
    rw [hreceived] at hunreceived
    refine h.unpending (hmode ▸ hdt) hunfinished k hunreceived fun hmem => hunpending ?_
    rw [hpending]
    refine mem_erase.mpr ⟨fun heq => ?_, hmem⟩
    rcases hname k heq.symm (heq ▸ hmem) with hk | hfin
    · exact hunreceived hk
    · cases hfin.symm.trans hunfinished
  clean hdt k entry hentry := by
    rw [hpending, AList.lookup_erase_eq] at hentry
    split_ifs at hentry
    exact h.clean (hmode ▸ hdt) k entry hentry
  sampled k hk := by
    rw [hmode, hreceived]
    exact h.sampled k hk

/-- A new Interest for an unreceived sequence is the first of its sequence, if it finds none
pending; a retransmission taints the entry. -/
lemma recorded (hdiscovering : Discovering f') (hnamed : FlowNamed cfg i f')
    (hmode : f.mode = .dt) (hmode' : f'.mode = .dt) (hunfinished : f.isFinished = false)
    (hunreceived : k ∉ f.receivedSeqs) (hrange : cfg.InRange k)
    (hreceived : f'.receivedSeqs = f.receivedSeqs) {entry : PendingSend}
    (hpending : f'.pendingSends = f.pendingSends.insert (cfg.dtName i k) entry)
    {isRetransmission : Bool}
    (hclean : entry.retransmitted = false → cfg.dtName i k ∉ f.pendingSends) :
    Karn cfg i (out ++ [.recorded .dt name k isRetransmission]) f' := by
  have hself : dtRecords k (out ++ [.recorded .dt name k isRetransmission])
      = dtRecords k out + 1 := by
    simp [dtRecords, recordsDT]
  have hother : ∀ l, l ≠ k → dtRecords l (out ++ [.recorded .dt name k isRetransmission])
      = dtRecords l out := by
    intro l hl
    simp [dtRecords, recordsDT, hl.symm]
  have hname : ∀ l, l ≠ k → cfg.dtName i l ≠ cfg.dtName i k := fun l hl heq =>
    hl (dtName_injective heq)
  refine ⟨hdiscovering, hnamed, fun _ name' hname' => ?_, fun hpd => ?_,
    fun _ hunfinished' l hl hunpending => ?_, fun _ l entry' hentry hfresh => ?_, fun l hl => ?_⟩
  · rw [hpending] at hname'
    rcases (mem_insert _).mp hname' with rfl | hmem
    · exact ⟨k, hrange, rfl⟩
    · exact h.pending hmode name' hmem
  · cases hpd.symm.trans hmode'
  · rw [hpending, mem_insert, not_or] at hunpending
    rw [hreceived] at hl
    rw [hother l fun heq => hunpending.1 (heq ▸ rfl)]
    exact h.unpending hmode hunfinished l hl hunpending.2
  · rw [hpending] at hentry
    by_cases hlk : l = k
    · subst hlk
      rw [lookup_insert] at hentry
      cases hentry
      rw [hself, h.unpending hmode hunfinished l hunreceived (hclean hfresh)]
    · rw [lookup_insert_ne (hname l hlk)] at hentry
      rw [hother l hlk]
      exact h.clean hmode l entry' hentry hfresh
  · have hold : .sampled l ∈ out := by simpa using hl
    obtain ⟨-, hmem, hcount⟩ := h.sampled l hold
    rw [hreceived, hother l fun heq => hunreceived (heq ▸ hmem)]
    exact ⟨hmode', hmem, hcount⟩

/-- Data for a sequence that was sent once may be a sample. -/
lemma accepted (hdiscovering : Discovering f') (hnamed : FlowNamed cfg i f')
    (hmode : f.mode = .dt) (hmode' : f'.mode = .dt) (hunfinished : f.isFinished = false)
    (hreceived : f'.receivedSeqs = insert k f.receivedSeqs)
    (hpending : f'.pendingSends = f.pendingSends.erase (cfg.dtName i k)) {n : ℕ}
    {out' : List FlowOut}
    (hout : out' = [] ∨ out' = [.sampled k] ∧
      ∃ entry, f.pendingSends.lookup (cfg.dtName i k) = some entry ∧ entry.retransmitted = false) :
    Karn cfg i (out ++ .accepted k n :: out') f' := by
  have hcount : ∀ l, dtRecords l (out ++ .accepted k n :: out') = dtRecords l out := by
    intro l
    rcases hout with rfl | ⟨rfl, -⟩ <;> simp [dtRecords, recordsDT]
  refine ⟨hdiscovering, hnamed, fun _ name' hname' => ?_, fun hpd => ?_,
    fun _ _ l hl hunpending => ?_, fun _ l entry hentry hfresh => ?_, fun l hl => ?_⟩
  · rw [hpending] at hname'
    exact h.pending hmode name' (mem_erase.mp hname').2
  · cases hpd.symm.trans hmode'
  · rw [hreceived, Finset.mem_insert, not_or] at hl
    rw [hcount]
    refine h.unpending hmode hunfinished l hl.2 fun hmem => hunpending ?_
    rw [hpending]
    exact mem_erase.mpr ⟨fun heq => hl.1 (dtName_injective heq), hmem⟩
  · rw [hpending, AList.lookup_erase_eq] at hentry
    split_ifs at hentry
    rw [hcount]
    exact h.clean hmode l entry hentry hfresh
  · rw [hcount, hreceived]
    have hcase : .sampled l ∈ out ∨ l = k ∧ dtRecords k out = 1 := by
      rcases hout with rfl | ⟨rfl, entry, hentry, hfresh⟩
      · exact .inl (by simpa using hl)
      · rcases mem_append.mp hl with hold | hnew
        · exact .inl hold
        · exact .inr ⟨by simpa using hnew, h.clean hmode k entry hentry hfresh⟩
    rcases hcase with hold | ⟨rfl, hone⟩
    · exact ⟨hmode', Finset.mem_insert_of_mem (h.sampled l hold).2.1, (h.sampled l hold).2.2⟩
    · exact ⟨hmode', Finset.mem_insert_self _ _, hone⟩

end

end Karn

/-! ### Steps -/

/-- An entry is clean only after a send that was not a retransmission. -/
lemma fresh_of_sentEntry {now : Time} {isRetransmission : Bool}
    (h : (f.sentEntry name now isRetransmission).retransmitted = false) :
    isRetransmission = false := by
  rw [sentEntry] at h
  cases isRetransmission with
  | false => rfl
  | true => split at h <;> cases h

lemma karn_dtStep (h : Karn cfg i out f) (hmode : f.mode = .dt) (hown : OwnSections cfg i f op)
    (hclean : RecordsClean f op) (hstep : DtStep cfg f op f') (hdiscovering : Discovering f')
    (hnamed : FlowNamed cfg i f') : Karn cfg i (out ++ flowOut cfg f op) f' := by
  have hmode' : f'.mode = .dt := hstep.mode_eq hmode
  have hpending : ∀ {name : Name}, name ∈ f.pendingSends →
      name = cfg.dtName i (extractSeqNum name) := by
    intro name hname
    obtain ⟨k, hk, rfl⟩ := h.pending hmode name hname
    rw [ConsumerConfig.Names.extractSeqNum .dt hk]
  cases hstep with
  | quiet hquiet hframe =>
    refine (h.neutral (neutral_flowOut ?_ ?_)).congr hdiscovering hnamed hframe.mode
      hframe.isFinished hframe.receivedSeqs hframe.pendingSends
    · rintro _ _ _ _ rfl
      cases hquiet
    · rintro _ _ _ rfl
      cases hquiet
  | @refused name seq now isRetransmission hover =>
    have hrefused : (f.recordInterestSend name seq now isRetransmission).2.2 = false := by
      rw [recordInterestSend_dt hmode, if_pos hover]
    rw [flowOut, hrefused]
    exact h.neutral fun o ho => by cases ho
  | @recorded name seq now isRetransmission hunfinished hunreceived =>
    have hrecorded : (f.recordInterestSend name seq now isRetransmission).2.2 = true := by
      rw [recordInterestSend_dt hmode, if_neg]
      rintro (hfinished | hreceived)
      · cases hunfinished.symm.trans hfinished
      · exact hunreceived hreceived
    obtain ⟨hname, hfree⟩ := hclean hmode
    rw [h.named.dtName hmode] at hname
    subst hname
    have hout : flowOut cfg f (.record (cfg.dtName i seq) seq now isRetransmission)
        = [.recorded .dt (cfg.dtName i seq) seq isRetransmission] := by
      rw [flowOut, if_pos hrecorded, hmode]
    rw [hout]
    exact h.recorded hdiscovering hnamed hmode hmode' hunfinished hunreceived hown.1 rfl rfl
      fun hfresh => hfree (fresh_of_sentEntry hfresh)
  | nack name => exact h.neutral fun o ho => by cases ho
  | timeout name =>
    refine (h.neutral fun o ho => by cases ho).erase hdiscovering hnamed rfl rfl rfl rfl ?_
    intro k hk
    exact absurd hk (hown k)
  | @accepted payload name now _ htrue hacc =>
    have hname := hpending hacc.pending
    rw [flowOut, if_pos ⟨hmode, htrue⟩]
    refine h.accepted hdiscovering hnamed hmode hmode' hacc.unfinished hacc.receivedSeqs
      (hname ▸ hacc.pendingSends) ?_
    split_ifs with hany
    · obtain ⟨entry, hentry, hfresh⟩ := (Option.any_eq_true _ _).mp hany
      rw [← hname]
      exact .inr ⟨rfl, entry, hentry, by simpa using hfresh⟩
    · exact .inl rfl
  | @ignored payload name now hfalse =>
    rw [flowOut, hfalse, if_neg (by simp)]
    exact h.neutral fun o ho => by cases ho
  | @cleared payload name now queued hfalse hover =>
    rw [flowOut, hfalse, if_neg (by simp)]
    refine (h.neutral fun o ho => by cases ho).erase hdiscovering hnamed rfl rfl rfl rfl ?_
    intro k hk hmem
    have heq : extractSeqNum name = k := dtName_injective ((hpending hmem).symm.trans hk)
    rw [← heq]
    exact hover.symm
  | pdTick rehearsal =>
    exact (h.neutral fun o ho => by cases ho).congr hdiscovering hnamed rfl rfl rfl rfl
  | switch now => cases hmode.symm.trans hown

lemma karn_pdStep (h : Karn cfg i out f) (hmode : f.mode = .pd)
    (hdiscovering : Discovering (flowStep cfg f op))
    (hnamed : FlowNamed cfg i (flowStep cfg f op)) :
    Karn cfg i (out ++ flowOut cfg f op) (flowStep cfg f op) := by
  refine (h.neutral (neutral_flowOut ?_ ?_)).of_pd hmode hdiscovering hnamed ?_
  · intro _ _ _ _ _ hdt
    cases hmode.symm.trans hdt
  · intro _ _ _ _ hdt
    cases hmode.symm.trans hdt
  · by_cases hstays : op.stays
    · exact .inl ((mode_flowStep h.discovering hstays).trans hmode)
    · obtain ⟨now, hswitch⟩ := not_forall.mp hstays
      rw [not_not.mp hswitch]
      exact .inr rfl

lemma karn_step (out : List FlowOut) (f : FlowContext) (op : FlowOp) (h : Karn cfg i out f)
    (hop : OwnSections cfg i f op ∧ RecordsClean f op) :
    Karn cfg i (out ++ flowOut cfg f op) (flowStep cfg f op) := by
  have hdiscovering : Discovering (flowStep cfg f op) := discovering_step h.discovering
  have hnamed := flowNamed_step h.discovering h.named hop.1.namesRecorded
  obtain ⟨hmode, hstep⟩ | ⟨hmode, -⟩ := flowStep_cases h.discovering
  · exact karn_dtStep h hmode hop.1 hop.2 hstep hdiscovering hnamed
  · exact karn_pdStep h hmode hdiscovering hnamed

/-! ### Runs -/

lemma Consumer.Moves.timeout_task {m : ConsumerMove} (hm : s.Moves cfg e m)
    (hop : m.op = some (.onFlow i (.timeout name))) : Task.onTimeout i name ∈ s.driver.tasks := by
  cases hm with
  | sender hstep => cases hstep <;> cases hop
  | onTimeout hget =>
    cases hop
    exact mem_of_getElem? hget
  | _ => cases hop

lemma Owned.ownSections (h : Owned cfg s) (i : ℕ) (e : ConsumerEvent) :
    s.Meets cfg (OwnSections cfg i) i e := by
  have hmoves := s.moves cfg e
  refine meets_of (fun f op hquiet => ?_) fun op hop => ?_
  · cases op with
    | record | timeout | switch => cases hquiet
    | _ => trivial
  · cases op with
    | record name seq now isRetransmission => exact hmoves.op_owned h hop
    | timeout name =>
      obtain ⟨k, -, hnames⟩ := h.tasks _ (hmoves.timeout_task hop)
      exact fun l => hnames.ne_dtName
    | switch now => exact (hmoves.switch h hop).1
    | _ => trivial

lemma karn_new (cfg : ConsumerConfig) (now : Time) (i : ℕ) :
    Karn cfg i [] ((new cfg now).core.flows i) := by
  have howned := owned_new cfg now
  have hempty : ((new cfg now).core.flows i).pendingSends = ∅ := by
    simp only [new, newFlowContext]
    cases cfg.initialMode <;> rfl
  refine ⟨howned.core.discovering i, howned.core.named i, fun _ name hname => ?_, fun _ _ => rfl,
    fun _ _ _ _ _ => rfl, fun _ k entry hentry => ?_, fun k hk => by cases hk⟩
  · rw [hempty] at hname
    exact absurd hname (notMem_empty name)
  · rw [hempty] at hentry
    cases hentry

lemma karn_run {now : Time} {es : List ConsumerEvent}
    (h : Steps.Guarded (consumerStep cfg) (Meets cfg RecordsClean i) (.new cfg now) es) :
    Karn cfg i (flowReports i (consumerTrace cfg (.new cfg now) es))
      ((consumerRun cfg (.new cfg now) es).core.flows i) := by
  refine (reports_invariant (I := fun out s => Owned cfg s ∧ Karn cfg i out (s.core.flows i))
    (fun out s e hI hclean => ⟨hI.1.step, ?_⟩) ⟨owned_new cfg now, karn_new cfg now i⟩ h).2
  exact report_step karn_step hI.2 ((hI.1.ownSections i e).and hclean)

/-- **Karn's rule**: if the Interests of the transfer are recorded under the names of their
sequences, and new ones under names with none pending, then Data is a sample only for a sequence
that was sent once. -/
theorem samples_unambiguous (cfg : ConsumerConfig) (now : Time) (i : ℕ) (es : List ConsumerEvent)
    (h : Steps.Guarded (consumerStep cfg) (Meets cfg RecordsClean i) (.new cfg now) es) :
    let out := flowReports i (consumerTrace cfg (.new cfg now) es)
    ∀ k, .sampled k ∈ out → dtRecords k out = 1 :=
  fun k hk => ((karn_run h).sampled k hk).2.2

/-- One Interest of path discovery is sent and answered, and the flow switches. -/
def discoverAndSwitch : List ConsumerEvent :=
  .tick 0 millisecond :: replicate 7 (.advance 0 millisecond true)
    ++ [.callback 0 (.data [0, 1]) millisecond, .start 0 millisecond]

/-- The sender resets its sequence numbers. -/
def resetSender : List ConsumerEvent := [.signal 0, .reset 0 (3 * millisecond)]

/-- Two Interests of the transfer are sent, and the second one is answered. -/
def sendTwoOfTransfer : List ConsumerEvent :=
  .tick 0 (5 * millisecond) :: replicate 14 (.advance 0 (5 * millisecond) true)
    ++ [.callback 0 (.data (replicate 6016 0)) (6 * millisecond)]

/-- The run in which the sender is told at once to reset its sequence numbers. -/
theorem samples_unambiguous_two :
    let es := discoverAndSwitch ++ resetSender ++ sendTwoOfTransfer
    let out := flowReports 0 (consumerTrace (soleConsumer .pd) (.new (soleConsumer .pd) 0) es)
    .sampled 2 ∈ out ∧ dtRecords 2 out = 1 := by
  intro es out
  have hsampled : .sampled 2 ∈ out := by decide +kernel
  exact ⟨hsampled, samples_unambiguous (soleConsumer .pd) 0 0 es (by decide +kernel) 2 hsampled⟩

/-- A tick comes between the switch and the reset: sequence 2 is sent, and sent again as a new one
after the reset.  Data for it is a sample, though two Interests were recorded. -/
theorem switch_makes_sample_ambiguous :
    let es := discoverAndSwitch ++ .tick 0 (2 * millisecond)
      :: replicate 8 (.advance 0 (2 * millisecond) true) ++ resetSender ++ sendTwoOfTransfer
    let out := flowReports 0 (consumerTrace (soleConsumer .pd) (.new (soleConsumer .pd) 0) es)
    .sampled 2 ∈ out ∧ dtRecords 2 out = 2 := by
  decide +kernel

end Mars
