import Mars.Consumer.Completion
import Mars.Consumer.Generations
import Mars.Consumer.Runs

/-!
Whose name is whose: every name that the consumer holds is one that a flow made.

A name carries the flow, the sequence and whether it was made in path discovery.  The mode that goes
with it may be later than the name, since `RecordInterestSend` reads the mode after the name was
made.

* `ConsumerConfig.Names`, `Names.unique`: the names of a sequence of a flow;
* `FlowNamed`: the names that a flow has pending;
* `Issued`, `OwnedCore`: the names of the controller; `Stamped`: a timer and the current attempt
  with one generation have one name;
* `Owned`, `owned_run`: the same for the goroutines, and that a flow switches to data transmission
  only once.
-/

namespace Mars

open FlowContext AList RetransmissionController List Consumer

variable {cfg : ConsumerConfig} {f : FlowContext} {c : Core} {s : Consumer} {i j : ℕ} {k l : ℤ}
  {name : Name} {mode mode' : TransmissionMode} {op : FlowOp}

/-! ### Names -/

namespace ConsumerConfig

/-- The name of sequence `k` of flow `i` in data transmission. -/
def dtName (cfg : ConsumerConfig) (i : ℕ) (k : ℤ) : Name :=
  seqName (dtBaseName (cfg.flowPrefix i) cfg.nodeName) k

/-- The name of sequence `k` of flow `i` in path discovery, at a tier. -/
def pdName (cfg : ConsumerConfig) (i tier : ℕ) (k : ℤ) : Name :=
  seqName (pdBaseName (cfg.flowPrefix i) cfg.nodeName tier) k

/-- The names of sequence `k` of flow `i` that were made up to `mode`. -/
inductive Names (cfg : ConsumerConfig) (i : ℕ) (k : ℤ) : TransmissionMode → Name → Prop
  | pd (tier : ℕ) (mode : TransmissionMode) (hinit : cfg.initialMode = .pd) :
      Names cfg i k mode (cfg.pdName i tier k)
  | dt : Names cfg i k .dt (cfg.dtName i k)

namespace Names

variable (h : cfg.Names i k mode name)
include h

lemma base : ∃ base : Name, name = seqName base k ∧ base.head? = some (cfg.flowPrefix i) := by
  cases h with
  | pd tier => exact ⟨_, rfl, head?_pdBaseName⟩
  | dt => exact ⟨_, rfl, head?_dtBaseName⟩

/-- A name belongs to one sequence of one flow. -/
lemma unique (h' : cfg.Names j l mode' name) : i = j ∧ k = l := by
  obtain ⟨base, rfl, hhead⟩ := h.base
  obtain ⟨base', heq, hhead'⟩ := h'.base
  obtain ⟨rfl, rfl⟩ := seqName_inj.mp heq
  have hprefix : cfg.flowPrefix i = cfg.flowPrefix j := Option.some.inj (hhead.symm.trans hhead')
  exact ⟨Nat.add_left_cancel (producerPrefix_injective hprefix), rfl⟩

lemma extractSeqNum (hk : cfg.InRange k) : extractSeqNum name = k := by
  obtain ⟨base, rfl, -⟩ := h.base
  have hmax : (cfg.maxPackets : ℤ) < 2 ^ 63 := by exact_mod_cast cfg.maxPackets_lt
  exact extractSeqNum_seqName (by linarith [hk.1]) (lt_of_le_of_lt hk.2 hmax)

omit h in
/-- A name of path discovery is not one of data transmission. -/
lemma ne_dtName (h : cfg.Names i k .pd name) : name ≠ cfg.dtName j l := by
  cases h with
  | pd tier => exact fun heq => dtBaseName_ne_pdBaseName (seqName_inj.mp heq).1.symm

lemma mono (hmode : mode = .dt → mode' = .dt) : cfg.Names i k mode' name := by
  cases h with
  | pd tier _ hinit => exact .pd tier mode' hinit
  | dt => exact hmode rfl ▸ .dt

lemma pd_or_dtName : cfg.Names i k .pd name ∨ name = cfg.dtName i k := by
  cases h with
  | pd tier _ hinit => exact .inl (.pd tier .pd hinit)
  | dt => exact .inr rfl

/-- A consumer that starts with data transmission makes no other names. -/
lemma eq_dtName (hinit : cfg.initialMode = .dt) : name = cfg.dtName i k := by
  cases h with
  | pd tier _ hpd => cases hinit.symm.trans hpd
  | dt => rfl

end Names

lemma Names.mode_dt (h : cfg.Names i k mode (cfg.dtName j l)) : mode = .dt := by
  cases mode with
  | dt => rfl
  | pd => exact absurd rfl (h.ne_dtName)

end ConsumerConfig

/-! ### The names of a flow -/

/-- The base name of a flow follows its mode, and its pending names are its own. -/
structure FlowNamed (cfg : ConsumerConfig) (i : ℕ) (f : FlowContext) : Prop where
  flowPrefix : f.flowPrefix = cfg.flowPrefix i
  baseName : ∀ k, cfg.Names i k f.mode (f.interestNameForSeq k)
  transfer : f.mode = .dt → f.baseName = dtBaseName (cfg.flowPrefix i) cfg.nodeName
  pending : ∀ name ∈ f.pendingSends, ∃ k, cfg.InRange k ∧ cfg.Names i k f.mode name

/-- A send is recorded under a name of its sequence. -/
def NamesRecorded (cfg : ConsumerConfig) (i : ℕ) (f : FlowContext) : FlowOp → Prop
  | .record name seq _ _ => cfg.InRange seq ∧ cfg.Names i seq f.mode name
  | _ => True

section

variable (h : FlowNamed cfg i f)
include h

lemma FlowNamed.dtName (hmode : f.mode = .dt) : f.interestNameForSeq k = cfg.dtName i k := by
  rw [interestNameForSeq, h.transfer hmode]
  rfl

/-- The names stay when only names are removed from `pendingSends`. -/
lemma FlowNamed.of_subset {f' : FlowContext}
    (hflow : f'.flowPrefix = f.flowPrefix) (hbase : f'.baseName = f.baseName)
    (hmode : f'.mode = f.mode)
    (hsubset : ∀ name ∈ f'.pendingSends, name ∈ f.pendingSends) : FlowNamed cfg i f' where
  flowPrefix := hflow.trans h.flowPrefix
  baseName k := by
    rw [interestNameForSeq, hbase, hmode]
    exact h.baseName k
  transfer hdt := hbase.trans (h.transfer (hmode ▸ hdt))
  pending name hname := by
    rw [hmode]
    exact h.pending name (hsubset name hname)

lemma FlowNamed.insert (hk : cfg.InRange k)
    (hname : cfg.Names i k f.mode name) {entry : PendingSend} :
    FlowNamed cfg i { f with pendingSends := f.pendingSends.insert name entry } where
  flowPrefix := h.flowPrefix
  baseName := h.baseName
  transfer := h.transfer
  pending name' hname' := by
    rcases (mem_insert _).mp hname' with rfl | hold
    · exact ⟨k, hk, hname⟩
    · exact h.pending name' hold

lemma flowNamed_checkPdState (hmode : f.mode = .pd) : FlowNamed cfg i (f.checkPdState cfg) := by
  rw [checkPdState]
  split_ifs
  · exact { h with }
  · have hinit : cfg.initialMode = .pd := by
      cases hinit : cfg.initialMode with
      | pd => rfl
      | dt =>
        have hname := (h.baseName 0).eq_dtName hinit
        have hpd := h.baseName 0
        rw [hname] at hpd
        cases hmode.symm.trans hpd.mode_dt
    refine ⟨h.flowPrefix, fun k => ?_, fun hdt => ?_, h.pending⟩
    · exact h.flowPrefix ▸ .pd _ _ hinit
    · cases hmode.symm.trans hdt
  · exact h

lemma flowNamed_observeDiscovery {packet : DiscoveryPacket} :
    FlowNamed cfg i (f.observeDiscovery packet) := by
  obtain ⟨paused, stop, rehearsed, count, heq⟩ := f.observeDiscovery_eq packet
  rw [heq]
  exact { h with }

lemma flowNamed_switch {now : Time} : FlowNamed cfg i (f.switchToDT cfg now) where
  flowPrefix := h.flowPrefix
  baseName k := by
    have hname : (f.switchToDT cfg now).interestNameForSeq k = cfg.dtName i k :=
      congrArg (fun p => seqName (dtBaseName p cfg.nodeName) k) h.flowPrefix
    rw [hname]
    exact .dt
  transfer _ := congrArg (dtBaseName · cfg.nodeName) h.flowPrefix
  pending name hname := absurd hname (notMem_empty name)

lemma FlowNamed.erase : FlowNamed cfg i { f with pendingSends := f.pendingSends.erase name } :=
  h.of_subset rfl rfl rfl fun _ hmem => (mem_erase.mp hmem).2

lemma FlowNamed.completePD : FlowNamed cfg i (f.completePD name) := { h.erase with }

end

lemma flowNamed_step (hdiscovering : Discovering f) (h : FlowNamed cfg i f)
    (hop : NamesRecorded cfg i f op) : FlowNamed cfg i (flowStep cfg f op) := by
  have hframe : ∀ {f' : FlowContext}, Frame f f' → FlowNamed cfg i f' := fun hframe =>
    h.of_subset hframe.flowPrefix hframe.baseName hframe.mode
      fun name hname => hframe.pendingSends ▸ hname
  obtain ⟨-, hstep⟩ | ⟨hmode, hstep⟩ := flowStep_cases hdiscovering
  · generalize flowStep cfg f op = f' at hstep ⊢
    cases hstep with
    | quiet hquiet hf => exact hframe hf
    | recorded => exact { h.insert hop.1 hop.2 with }
    | timeout name => exact h.erase
    | accepted htrue hacc =>
      refine h.of_subset hacc.flowPrefix hacc.baseName hacc.mode fun name hname => ?_
      rw [hacc.pendingSends] at hname
      exact (mem_erase.mp hname).2
    | @cleared _ name => exact { h.erase with }
    | pdTick rehearsal => exact { h with }
    | switch now => exact flowNamed_switch h
    | _ => exact h
  · generalize flowStep cfg f op = f' at hstep ⊢
    cases hstep with
    | quiet hquiet hf => exact hframe hf
    | recorded => exact { h.insert hop.1 hop.2 with }
    | nack name | undecodable => exact h.completePD
    | timeout name => exact flowNamed_checkPdState (h.completePD) hmode
    | ignored => exact h
    | @observed _ name _ packet =>
      refine flowNamed_checkPdState (flowNamed_observeDiscovery (h.completePD)) ?_
      obtain ⟨paused, stop, rehearsed, count, heq⟩ := (f.completePD name).observeDiscovery_eq packet
      rw [heq]
      exact hmode
    | pdTick rehearsal => exact { h with }
    | switch now => exact flowNamed_switch h

lemma flowNamed_new {now : Time} : FlowNamed cfg i (newFlowContext cfg i now) := by
  rw [newFlowContext]
  cases hinit : cfg.initialMode with
  | pd => exact ⟨rfl, fun k => .pd 0 _ hinit, fun h => TransmissionMode.noConfusion h,
      fun name h => absurd h (notMem_empty name)⟩
  | dt => exact ⟨rfl, fun k => .dt, fun _ => rfl, fun name h => absurd h (notMem_empty name)⟩

/-- Only a send makes a name pending. -/
lemma mem_pendingSends_flowStep (hdiscovering : Discovering f)
    (h : name ∈ (flowStep cfg f op).pendingSends) :
    name ∈ f.pendingSends
      ∨ ∃ seq now isRetransmission, op = .record name seq now isRetransmission := by
  have hinsert : ∀ {name' : Name} {entry : PendingSend} {seq : ℤ} {now : Time}
      {isRetransmission : Bool}, name ∈ f.pendingSends.insert name' entry →
      name ∈ f.pendingSends ∨ ∃ seq' now' isRetransmission',
        FlowOp.record name' seq now isRetransmission
          = .record name seq' now' isRetransmission' := by
    intro name' entry seq now isRetransmission hmem
    rcases (mem_insert _).mp hmem with rfl | hold
    · exact .inr ⟨_, _, _, rfl⟩
    · exact .inl hold
  have herase : ∀ {name' : Name}, name ∈ f.pendingSends.erase name' → name ∈ f.pendingSends :=
    fun hmem => (mem_erase.mp hmem).2
  obtain ⟨-, hstep⟩ | ⟨-, hstep⟩ := flowStep_cases hdiscovering
  · generalize flowStep cfg f op = f' at hstep h
    cases hstep with
    | quiet hquiet hframe => exact .inl (hframe.pendingSends ▸ h)
    | recorded => exact hinsert h
    | timeout name | cleared => exact .inl (herase h)
    | accepted htrue hacc => exact .inl (herase (hacc.pendingSends ▸ h))
    | switch now => exact absurd h (notMem_empty name)
    | _ => exact .inl h
  · generalize flowStep cfg f op = f' at hstep h
    cases hstep with
    | quiet hquiet hframe => exact .inl (hframe.pendingSends ▸ h)
    | recorded => exact hinsert h
    | nack name | undecodable => exact .inl (herase h)
    | timeout name =>
      rw [(flagsOnly_checkPdState cfg (f.completePD name)).pendingSends] at h
      exact .inl (herase h)
    | @observed _ name _ packet =>
      rw [(flagsOnly_observed cfg (f.completePD name) packet).pendingSends] at h
      exact .inl (herase h)
    | switch now => exact absurd h (notMem_empty name)
    | _ => exact .inl h

/-- What has been received stays received, until a switch. -/
lemma DtStep.receivedSeqs_subset {f' : FlowContext} (h : DtStep cfg f op f')
    (hop : ∀ now, op ≠ .switch now) : f.receivedSeqs ⊆ f'.receivedSeqs := by
  cases h with
  | quiet hquiet hframe => rw [hframe.receivedSeqs]
  | accepted htrue hacc =>
    rw [hacc.receivedSeqs]
    exact Finset.subset_insert _ _
  | switch now => exact absurd rfl (hop now)
  | _ => exact subset_rfl

/-! ### The names of the controller -/

/-- `name` is a name of sequence `k` of flow `i`, and goes with `mode`; the flow is not behind. -/
structure Issued (cfg : ConsumerConfig) (c : Core) (i : ℕ) (k : ℤ) (mode : TransmissionMode)
    (name : Name) : Prop where
  range : cfg.InRange k
  names : cfg.Names i k mode name
  started : mode = .dt → (c.flows i).mode = .dt

lemma Issued.mono {c' : Core} (h : Issued cfg c i k mode name)
    (hmode : ∀ i, (c.flows i).mode = .dt → (c'.flows i).mode = .dt) :
    Issued cfg c' i k mode name := ⟨h.range, h.names, fun hdt => hmode i (h.started hdt)⟩

/-- The timers that are set, with the one that the scheduler has in hand. -/
def Core.timers (c : Core) : List PendingPacket :=
  (match c.lock with
    | .expiring item => [item]
    | _ => []) ++ c.ctl.pq.map Prod.fst

/-- The names of the flows and of the controller are issued ones. -/
structure OwnedCore (cfg : ConsumerConfig) (c : Core) : Prop where
  discovering : ∀ i, Discovering (c.flows i)
  named : ∀ i, FlowNamed cfg i (c.flows i)
  active : ∀ name a, c.ctl.active.lookup name = some a →
    Issued cfg c a.flow a.sequenceNum a.mode name
  timers : ∀ item ∈ c.timers, ∃ mode, Issued cfg c item.flow item.sequenceNum mode item.name
  adding : ∀ name seq flow mode baseRTO, c.lock = .adding name seq flow mode baseRTO →
    Issued cfg c flow seq mode name

/-- A timer and the current attempt with one generation have one name. -/
structure Stamped (c : Core) : Prop where
  active_le : ∀ name a, c.ctl.active.lookup name = some a → a.generation ≤ c.ctl.nextGeneration
  timers_le : ∀ item ∈ c.timers, item.generation ≤ c.ctl.nextGeneration
  same : ∀ item ∈ c.timers, ∀ name a, c.ctl.active.lookup name = some a →
    a.generation = item.generation → item.name = name

/-- The names that a step brings to the core are issued ones. -/
def CoreOp.Owned (cfg : ConsumerConfig) (c : Core) : CoreOp → Prop
  | .onFlow i op => NamesRecorded cfg i (c.flows i) op
  | .addBegin name seq flow mode => Issued cfg c flow seq mode name
  | _ => True

lemma popExpired_pq {rc rc' : RetransmissionController} {now : Time} {item : PendingPacket}
    (h : rc.popExpired now = some (item, rc')) :
    ∃ expiration, (item, expiration) ∈ rc.pq ∧ rc'.pq = rc.pq.erase (item, expiration) := by
  rw [popExpired, Option.map_eq_some_iff] at h
  obtain ⟨⟨item', rest⟩, hpop, heq⟩ := h
  cases heq
  obtain ⟨expiration, -, hmem, hrest⟩ := PriorityQueue.popIf_spec hpop
  exact ⟨expiration, hmem, hrest⟩

/-- `a` is the attempt `a'`, but for the flags of its fast repair and its timer. -/
structure ActiveAttempt.Same (a' a : ActiveAttempt) : Prop where
  flow : a'.flow = a.flow
  sequenceNum : a'.sequenceNum = a.sequenceNum
  mode : a'.mode = a.mode
  generation : a'.generation = a.generation

namespace Core.Moves

variable {op : CoreOp} {m : CoreMove}

/-- An attempt that is current after a move was so before, or was just added. -/
lemma active (h : c.Moves op m) {a : ActiveAttempt} (hlookup : m.ctl.active.lookup name = some a) :
    (∃ a', c.ctl.active.lookup name = some a' ∧ a'.Same a)
      ∨ a.generation = c.ctl.nextGeneration + 1 ∧ m.ctl.nextGeneration = c.ctl.nextGeneration + 1
        ∧ ∃ baseRTO, c.lock = .adding name a.sequenceNum a.flow a.mode baseRTO := by
  have hremove : ∀ {rc : RetransmissionController} {name' : Name}, rc.active = c.ctl.active →
      (rc.remove name').active.lookup name = some a → c.ctl.active.lookup name = some a := by
    intro rc name' hrc hremoved
    rw [remove, AList.lookup_erase_eq, hrc] at hremoved
    split_ifs at hremoved
    exact hremoved
  have hold : c.ctl.active.lookup name = some a →
      ∃ a', c.ctl.active.lookup name = some a' ∧ a'.Same a := fun h => ⟨a, h, rfl, rfl, rfl, rfl⟩
  cases h with
  | @addEnd name' seq flow mode baseRTO now hlock =>
    rw [add, AList.lookup_insert_eq] at hlookup
    split_ifs at hlookup with hname
    · cases hlookup
      exact .inr ⟨rfl, rfl, baseRTO, hname ▸ hlock⟩
    · exact .inl (hold hlookup)
  | removeIfCurrent | complete => exact .inl (hold (hremove rfl hlookup))
  | @repair name' candidate flow current hlock htarget huntriggered =>
    rw [AList.lookup_insert_eq] at hlookup
    split_ifs at hlookup with hname
    · cases hlookup
      exact .inl ⟨current, hname ▸ (Option.filter_eq_some_iff.mp htarget).1, rfl, rfl, rfl, rfl⟩
    · exact .inl (hold hlookup)
  | expireStale hlock hpop | expireDT hlock hpop =>
    exact .inl (hold ((popExpired_active hpop).1 ▸ hlookup))
  | expirePD hlock hpop => exact .inl (hold (hremove (popExpired_active hpop).1 hlookup))
  | _ => exact .inl (hold hlookup)

/-- A timer that is set after a move was so before, or was just added. -/
lemma timers (h : c.Moves op m) {item : PendingPacket} (hitem : item ∈ (c.apply cfg m).timers) :
    item ∈ c.timers
      ∨ item.generation = c.ctl.nextGeneration + 1 ∧ m.ctl.nextGeneration = c.ctl.nextGeneration + 1
        ∧ ∃ mode baseRTO, c.lock = .adding item.name item.sequenceNum item.flow mode baseRTO := by
  simp only [Core.timers, Core.apply] at hitem ⊢
  cases h with
  | addBegin hlock =>
    simp only [Core.stay, hlock] at hitem ⊢
    exact .inl hitem
  | addEnd now hlock =>
    simp only [add, PriorityQueue.push, map_append, hlock,
      nil_append, mem_append, map_cons, map_nil, mem_singleton] at hitem ⊢
    rcases hitem with hitem | rfl
    · exact .inl hitem
    · exact .inr ⟨rfl, rfl, _, _, rfl⟩
  | expireStale hlock hpop =>
    obtain ⟨p, -, hpq⟩ := popExpired_pq hpop
    rw [hpq, hlock] at hitem
    rw [hlock]
    exact .inl (map_subset _ erase_subset hitem)
  | expirePD hlock hpop =>
    obtain ⟨p, -, hpq⟩ := popExpired_pq hpop
    rw [remove, hpq, hlock] at hitem
    rw [hlock]
    exact .inl (map_subset _ erase_subset hitem)
  | expireDT hlock hpop =>
    obtain ⟨p, hmem, hpq⟩ := popExpired_pq hpop
    rw [hpq] at hitem
    rw [hlock]
    rcases mem_cons.mp hitem with rfl | hitem
    · exact .inl (mem_map_of_mem hmem)
    · exact .inl (map_subset _ erase_subset hitem)
  | expireEnd hlock =>
    rw [hlock]
    exact .inl (mem_cons_of_mem _ hitem)
  | _ => exact .inl hitem

/-- The lock of `Add` is taken where it is asked for. -/
lemma adding (h : c.Moves op m) {seq : ℤ} {flow : ℕ} {baseRTO : ℚ}
    (hlock : m.lock = .adding name seq flow mode baseRTO) :
    c.lock = .adding name seq flow mode baseRTO ∨ op = .addBegin name seq flow mode := by
  cases h with
  | addBegin =>
    cases hlock
    exact .inr rfl
  | addEnd | expireDT | expireEnd => cases hlock
  | _ => exact .inl hlock

lemma nextGeneration_le (h : c.Moves op m) : c.ctl.nextGeneration ≤ m.ctl.nextGeneration := by
  cases h with
  | addEnd => exact Nat.le_succ _
  | expireStale hlock hpop | expirePD hlock hpop | expireDT hlock hpop =>
    exact (popExpired_active hpop).2.ge
  | _ => exact le_rfl

end Core.Moves

lemma mode_dt_coreStep (cfg : ConsumerConfig) (op : CoreOp) (i : ℕ)
    (hmode : (c.flows i).mode = .dt) : ((coreStep cfg c op).flows i).mode = .dt := by
  rw [coreStep, Core.apply_flows]
  split_ifs
  · exact mode_dt_flowRun hmode
  · exact hmode

lemma stamped_step (h : Stamped c) {op : CoreOp} : Stamped (coreStep cfg c op) := by
  have hmoves := c.moves op
  have hle := hmoves.nextGeneration_le
  refine ⟨fun name a hlookup => ?_, fun item hitem => ?_, fun item hitem name a hlookup hgen => ?_⟩
  · rcases hmoves.active hlookup with ⟨a', hold, hsame⟩ | ⟨hnew, hnext, -⟩
    · exact hsame.generation ▸ (h.active_le name a' hold).trans hle
    · exact (hnew.trans hnext.symm).le
  · rcases hmoves.timers hitem with hold | ⟨hnew, hnext, -⟩
    · exact (h.timers_le item hold).trans hle
    · exact (hnew.trans hnext.symm).le
  · rcases hmoves.active hlookup with ⟨a', hold, hsame⟩ | ⟨hnew, -, baseRTO, hlock⟩ <;>
      rcases hmoves.timers hitem with hold' | ⟨hnew', -, mode, baseRTO', hlock'⟩
    · exact h.same item hold' name a' hold (hsame.generation.trans hgen)
    · -- the new timer has a generation that no attempt had
      have hlt := h.active_le name a' hold
      rw [hsame.generation, hgen, hnew'] at hlt
      omega
    · have hlt := h.timers_le item hold'
      rw [← hgen, hnew] at hlt
      omega
    · exact (RcLock.adding.inj (hlock'.symm.trans hlock)).1

lemma ownedCore_step (h : OwnedCore cfg c) {op : CoreOp} (hop : op.Owned cfg c) :
    OwnedCore cfg (coreStep cfg c op) := by
  have hmoves := c.moves op
  have hmono : ∀ {i k mode name}, Issued cfg c i k mode name →
      Issued cfg (coreStep cfg c op) i k mode name := fun h => h.mono (mode_dt_coreStep cfg op)
  have hflows : ∀ i, Discovering ((coreStep cfg c op).flows i)
      ∧ FlowNamed cfg i ((coreStep cfg c op).flows i) := by
    intro i
    rw [coreStep, Core.apply_flows]
    by_cases hi : i = (c.move op).flow
    · rw [if_pos hi]
      refine Steps.guarded_invariant (I := fun f => Discovering f ∧ FlowNamed cfg i f)
        (fun f op hf (hop : NamesRecorded cfg i f op) =>
          ⟨discovering_step hf.1, flowNamed_step hf.1 hf.2 hop⟩)
        ⟨h.discovering i, h.named i⟩ ?_
      rcases hmoves.sections with ⟨fop, hfop, hops⟩ | hquiet
      · rw [hfop, ← hi] at hop
        rw [hops]
        exact ⟨hop, trivial⟩
      · refine Steps.guarded_of_forall_mem (fun fop hfop f => ?_) _
        have hq := hquiet fop hfop
        cases fop <;> trivial
    · rw [if_neg hi]
      exact ⟨h.discovering i, h.named i⟩
  refine ⟨fun i => (hflows i).1, fun i => (hflows i).2, fun name a hlookup => ?_,
    fun item hitem => ?_, fun name seq flow mode baseRTO hlock => ?_⟩
  · rcases hmoves.active hlookup with ⟨a', hold, hsame⟩ | ⟨-, -, baseRTO, hlock⟩
    · rw [← hsame.flow, ← hsame.sequenceNum, ← hsame.mode]
      exact hmono (h.active name a' hold)
    · exact hmono (h.adding _ _ _ _ _ hlock)
  · rcases hmoves.timers hitem with hold | ⟨-, -, mode, baseRTO, hlock⟩
    · obtain ⟨mode, hissued⟩ := h.timers item hold
      exact ⟨mode, hmono hissued⟩
    · exact ⟨mode, hmono (h.adding _ _ _ _ _ hlock)⟩
  · rcases hmoves.adding hlock with hold | rfl
    · exact hmono (h.adding _ _ _ _ _ hold)
    · exact hmono hop

/-! ### The names of the goroutines -/

/-- The names that a sender holds are its own, and it retransmits only in data transmission. -/
def SenderPc.Owned (cfg : ConsumerConfig) (c : Core) (i : ℕ) : SenderPc → Prop
  | .chosen seq isRetransmission =>
    cfg.InRange seq ∧ (isRetransmission = true → (c.flows i).mode = .dt)
  | .named name seq isRetransmission =>
    Issued cfg c i seq (c.flows i).mode name
      ∧ (isRetransmission = true → (c.flows i).mode = .dt)
  | .recorded name seq mode | .adding name seq mode => Issued cfg c i seq mode name
  | _ => True

structure SenderOwned (cfg : ConsumerConfig) (c : Core) (i : ℕ) (sender : Sender) : Prop where
  nonneg : 0 ≤ sender.sequenceNum
  le : sender.sequenceNum ≤ cfg.maxPackets
  pc : sender.pc.Owned cfg c i

/-- A NACK or a timeout is reported to a flow for a name of path discovery; an attempt is completed
after its sequence was received, or after path discovery. -/
def Task.Owned (cfg : ConsumerConfig) (c : Core) : Task → Prop
  | .onNack i name | .onTimeout i name => ∃ k, cfg.InRange k ∧ cfg.Names i k .pd name
  | .complete name => ∃ i k, cfg.InRange k ∧ (cfg.Names i k .pd name
      ∨ name = cfg.dtName i k ∧ (c.flows i).mode = .dt ∧ k ∈ (c.flows i).receivedSeqs)

/-- Every name that the consumer holds is one that a flow made, and no flow switches to data
transmission twice. -/
structure Owned (cfg : ConsumerConfig) (s : Consumer) : Prop where
  core : OwnedCore cfg s.core
  stamped : Stamped s.core
  senders : ∀ i, SenderOwned cfg s.core i (s.driver.senders i)
  attempts : ∀ a ∈ s.driver.attempts, ∃ k, Issued cfg s.core a.flow k a.mode a.name
  tasks : ∀ task ∈ s.driver.tasks, task.Owned cfg s.core
  undiscovered : cfg.initialMode = .dt →
    ∀ i, (s.core.flows i).mode = .dt ∧ (s.core.flows i).pdFinished = false
  started : cfg.initialMode = .pd → ∀ i, (s.core.flows i).mode = .dt → s.driver.starters i ≠ .idle

lemma SenderPc.Owned.of_idle {pc : SenderPc} (h : pc.idle = true) : pc.Owned cfg c i := by
  cases pc <;> trivial

lemma SenderPc.Owned.mono {c' : Core} {pc : SenderPc} (h : pc.Owned cfg c i)
    (hmode : ∀ i, (c.flows i).mode = .dt → (c'.flows i).mode = .dt) : pc.Owned cfg c' i := by
  cases pc with
  | chosen seq isRetransmission => exact ⟨h.1, fun hr => hmode i (h.2 hr)⟩
  | named name seq isRetransmission =>
    exact ⟨⟨h.1.range, h.1.names.mono (hmode i), id⟩, fun hr => hmode i (h.2 hr)⟩
  | recorded name seq mode | adding name seq mode => exact Issued.mono h hmode
  | _ => trivial

/-- A retransmission that is popped is one of the sequences of the flow. -/
lemma FlowNamed.popped (h : FlowNamed cfg i f) (hpop : f.popRetransmission.2 = some k) :
    cfg.InRange k ∧ f.mode = .dt := by
  obtain ⟨-, hmode, -, hpending⟩ := RetxDue.of_pop hpop
  obtain ⟨l, hl, hnames⟩ := h.pending _ hpending
  obtain ⟨-, rfl⟩ := (h.baseName k).unique hnames
  exact ⟨hl, hmode⟩

lemma SenderStep.owned {e : ConsumerEvent} {op : Option CoreOp} {sender : Sender}
    (h : SenderStep cfg s e i op sender) (hcore : OwnedCore cfg s.core)
    (hs : SenderOwned cfg s.core i (s.driver.senders i)) : SenderOwned cfg s.core i sender := by
  have hpc := hs.pc
  cases h with
  | idle hidle hidle' hseq | pdTick hmode hidle hidle' hseq =>
    exact ⟨hseq ▸ hs.nonneg, hseq ▸ hs.le, .of_idle hidle'⟩
  | reset now => exact ⟨le_rfl, Int.natCast_nonneg _, hpc⟩
  | popNone | skip | refuse | addNone => exact ⟨hs.nonneg, hs.le, trivial⟩
  | pop _ hpop =>
    obtain ⟨hrange, hmode⟩ := (hcore.named i).popped hpop
    exact ⟨hs.nonneg, hs.le, hrange, fun _ => hmode⟩
  | choose _ hlimit =>
    have hnonneg := hs.nonneg
    exact ⟨by simp only; omega, hlimit, ⟨by omega, hlimit⟩, fun h => by cases h⟩
  | name heq =>
    rw [heq] at hpc
    exact ⟨hs.nonneg, hs.le, ⟨hpc.1, (hcore.named i).baseName _, id⟩, hpc.2⟩
  | record now heq =>
    rw [heq] at hpc
    exact ⟨hs.nonneg, hs.le, hpc.1⟩
  | addBegin heq =>
    rw [heq] at hpc
    exact ⟨hs.nonneg, hs.le, hpc⟩

/-- A name of path discovery goes with an attempt of path discovery. -/
lemma Issued.names_pd (h : Issued cfg c i k mode name) (hmode : (c.flows i).mode = .pd) :
    cfg.Names i k .pd name := by
  refine h.names.mono fun hdt => ?_
  rw [h.started hdt] at hmode
  exact hmode.symm

lemma Owned.attempt (h : Owned cfg s) {index : ℕ} {a : Attempt}
    (hget : s.driver.attempts[index]? = some a) : ∃ k, Issued cfg s.core a.flow k a.mode a.name :=
  h.attempts a (mem_of_getElem? hget)

namespace Consumer.Moves

variable {e : ConsumerEvent} {m : ConsumerMove}

section

variable (hm : s.Moves cfg e m)
include hm

lemma op_owned (h : Owned cfg s) {op : CoreOp} (hop : m.op = some op) : op.Owned cfg s.core := by
  cases hm with
  | @sender _ i _ _ hstep =>
    have hpc := (h.senders i).pc
    cases hstep with
    | refuse now heq | record now heq =>
      cases hop
      rw [heq] at hpc
      exact ⟨hpc.1.range, hpc.1.names⟩
    | addNone heq | addBegin heq =>
      cases hop
      rw [heq] at hpc
      exact hpc
    | _ => cases hop <;> trivial
  | _ => cases hop <;> trivial

lemma senders (h : Owned cfg s) (i : ℕ) : SenderOwned cfg s.core i (m.driver.senders i) := by
  have hsender := h.senders i
  have hcases := hm.sender_cases i
  generalize m.driver.senders i = sender at hcases ⊢
  generalize m.op = op at hcases
  cases hcases with
  | stay => exact hsender
  | step hstep => exact hstep.owned h.core hsender
  | addEnd => exact ⟨hsender.nonneg, hsender.le, trivial⟩
  | signal => exact { hsender with }

lemma attempts (h : Owned cfg s) {a : Attempt}
    (ha : a ∈ m.driver.attempts) : ∃ k, Issued cfg s.core a.flow k a.mode a.name := by
  have herase : ∀ index, a ∈ s.driver.attempts.eraseIdx index →
      ∃ k, Issued cfg s.core a.flow k a.mode a.name :=
    fun index hmem => h.attempts a (mem_of_mem_eraseIdx hmem)
  cases hm with
  | @addEnd i name seq mode baseRTO now makeInterest hpc hlock =>
    rcases mem_cons.mp ha with rfl | hold
    · have howned := (h.senders i).pc
      rw [hpc] at howned
      exact ⟨seq, howned⟩
    · exact h.attempts a hold
  | accept | ignore | lifetime | nackDT | nackPD | nackStale => exact herase _ ha
  | _ => exact h.attempts a ha

/-- A flow switches only from path discovery, and then it has. -/
lemma switch (h : Owned cfg s) {now : Time}
    (hop : m.op = some (.onFlow i (.switch now))) :
    (s.core.flows i).mode = .pd ∧ m.driver.starters i = .switched := by
  cases hm with
  | @start j now' hj hall hidle =>
    cases hop
    refine ⟨?_, Function.update_self _ _ _⟩
    cases hinit : cfg.initialMode with
    | dt =>
      -- no flow has finished a path discovery that it never began
      have hfinished := (h.undiscovered hinit 0).2
      rw [hall 0 cfg.flowCount_pos] at hfinished
      cases hfinished
    | pd =>
      cases hmode : (s.core.flows i).mode with
      | pd => rfl
      | dt => exact absurd hidle (h.started hinit i hmode)
  | sender hstep => cases hstep <;> cases hop
  | _ => cases hop

lemma starters (h : s.driver.starters i ≠ .idle) : m.driver.starters i ≠ .idle := by
  have hupdate : ∀ {j : ℕ} {starter : Starter}, starter ≠ .idle →
      Function.update s.driver.starters j starter i ≠ .idle := by
    intro j starter hstarter
    by_cases hij : i = j
    · subst hij
      rwa [Function.update_self]
    · rwa [Function.update_of_ne hij]
  cases hm with
  | start | signal => exact hupdate (by decide)
  | _ => exact h

end

end Consumer.Moves

/-- A section other than the switch. -/
def FlowOp.stays (op : FlowOp) : Prop := ∀ now, op ≠ .switch now

lemma FlowOp.stays_of_quiet (h : op.quiet = true) : op.stays := by
  rintro now rfl
  cases h

lemma mode_flowStep (hdiscovering : Discovering f) (hop : op.stays) :
    (flowStep cfg f op).mode = f.mode := by
  obtain ⟨hmode, hstep⟩ | ⟨hmode, hstep⟩ := flowStep_cases hdiscovering
  · exact (hstep.mode_eq hmode).trans hmode.symm
  · generalize flowStep cfg f op = f' at hstep ⊢
    cases hstep with
    | quiet hquiet hframe => exact hframe.mode
    | timeout name => exact (flagsOnly_checkPdState cfg (f.completePD name)).mode
    | @observed _ name _ packet =>
      exact (flagsOnly_observed cfg (f.completePD name) packet).mode
    | switch now => exact absurd rfl (hop now)
    | _ => rfl

section Step

variable {e : ConsumerEvent}

lemma mode_dt_consumerStep (i : ℕ) (hmode : (s.core.flows i).mode = .dt) :
    ((consumerStep cfg s e).core.flows i).mode = .dt := by
  rw [flows_consumerStep]
  exact mode_dt_flowRun hmode

namespace Owned

variable (h : Owned cfg s)
include h

/-- The sections that a step enters do not switch a flow that transfers data. -/
lemma meets_stays (hmode : (s.core.flows i).mode = .dt) :
    s.Meets cfg (fun _ op => op.stays) i e := by
  refine meets_of (fun _ op hquiet => FlowOp.stays_of_quiet hquiet) fun op hop now heq => ?_
  subst heq
  have hpd := ((s.moves cfg e).switch h hop).1
  rw [hmode] at hpd
  cases hpd

lemma receivedSeqs_subset (hmode : (s.core.flows i).mode = .dt) :
    (s.core.flows i).receivedSeqs ⊆ ((consumerStep cfg s e).core.flows i).receivedSeqs := by
  refine (flow_step (I := fun f => f.mode = .dt ∧ (s.core.flows i).receivedSeqs ⊆ f.receivedSeqs)
    (fun f op hf (hop : op.stays) => ?_) ⟨hmode, subset_rfl⟩ (h.meets_stays hmode)).2
  have hstep : DtStep cfg f op (flowStep cfg f op) := dtStep_flowStep hf.1
  exact ⟨hstep.mode_eq hf.1, hf.2.trans (hstep.receivedSeqs_subset hop)⟩

/-- Only a switch changes the mode. -/
lemma mode_eq
    (hswitch : ∀ now, (s.move cfg e).op ≠ some (.onFlow i (.switch now))) :
    ((consumerStep cfg s e).core.flows i).mode = (s.core.flows i).mode :=
  (flow_step (I := fun f => Discovering f ∧ f.mode = (s.core.flows i).mode)
    (fun _ op hf (hop : op.stays) =>
      ⟨discovering_step hf.1, (mode_flowStep hf.1 hop).trans hf.2⟩)
    ⟨h.core.discovering i, rfl⟩
    (meets_of (fun _ _ hquiet => FlowOp.stays_of_quiet hquiet)
      fun _ hop now heq => hswitch now (heq ▸ hop))).2

/-- Only a send makes a name pending. -/
lemma mem_pendingSends
    (hname : name ∈ ((consumerStep cfg s e).core.flows i).pendingSends) :
    name ∈ (s.core.flows i).pendingSends
      ∨ ∃ seq now isRetransmission,
        (s.move cfg e).op = some (.onFlow i (.record name seq now isRetransmission)) := by
  refine (flow_step (I := fun f => Discovering f ∧ (name ∈ f.pendingSends →
      name ∈ (s.core.flows i).pendingSends ∨ ∃ seq now isRetransmission,
        (s.move cfg e).op = some (.onFlow i (.record name seq now isRetransmission))))
    (fun f op hf (hop : op.quiet = true ∨ (s.move cfg e).op = some (.onFlow i op)) => ?_)
    ⟨h.core.discovering i, .inl⟩
    (meets_of (fun _ _ hquiet => .inl hquiet) fun _ hop => .inr hop)).2 hname
  refine ⟨discovering_step hf.1, fun hmem => ?_⟩
  rcases mem_pendingSends_flowStep hf.1 hmem with hold | ⟨seq, now, isRetransmission, rfl⟩
  · exact hf.2 hold
  · rcases hop with hquiet | hop
    · cases hquiet
    · exact .inr ⟨seq, now, isRetransmission, hop⟩

lemma core_step :
    OwnedCore cfg (consumerStep cfg s e).core ∧ Stamped (consumerStep cfg s e).core := by
  cases hop : (s.move cfg e).op with
  | none =>
    rw [core_consumerStep_none hop]
    exact ⟨h.core, h.stamped⟩
  | some op =>
    rw [core_consumerStep_some hop]
    exact ⟨ownedCore_step h.core ((s.moves cfg e).op_owned h hop), stamped_step h.stamped⟩

/-- An attempt whose Data was accepted is one of path discovery, or its sequence is received. -/
lemma accepted {index : ℕ} {a : Attempt} {payload : List ℕ} {now : Time}
    (hget : s.driver.attempts[index]? = some a)
    (hdata : ((s.core.flows a.flow).onData cfg payload a.name now).2 = true)
    (hop : (s.move cfg e).op = some (.onFlow a.flow (.data payload a.name now))) :
    (Task.complete a.name).Owned cfg (consumerStep cfg s e).core := by
  obtain ⟨k, hissued⟩ := h.attempt hget
  refine ⟨a.flow, k, hissued.range, ?_⟩
  cases hmode : (s.core.flows a.flow).mode with
  | pd => exact .inl (hissued.names_pd hmode)
  | dt =>
    rcases hissued.names.pd_or_dtName with hpd | hname
    · exact .inl hpd
    · refine .inr ⟨hname, mode_dt_consumerStep a.flow hmode, ?_⟩
      rw [flows_onFlow hop]
      obtain ⟨-, hacc⟩ | heq | ⟨-, queued, -, heq⟩ :=
        onData_dt cfg hmode payload a.name now
      · rw [flowStep, hacc.receivedSeqs, hissued.names.extractSeqNum hissued.range]
        exact Finset.mem_insert_self _ _
      · rw [heq] at hdata
        cases hdata
      · rw [heq] at hdata
        cases hdata

lemma tasks_step :
    ∀ task ∈ (consumerStep cfg s e).driver.tasks, task.Owned cfg (consumerStep cfg s e).core := by
  have hmono : ∀ {task : Task}, task.Owned cfg s.core →
      task.Owned cfg (consumerStep cfg s e).core := by
    intro task htask
    cases task with
    | complete name =>
      obtain ⟨i, k, hk, hpd | ⟨hname, hmode, hreceived⟩⟩ := htask
      · exact ⟨i, k, hk, .inl hpd⟩
      · exact ⟨i, k, hk, .inr ⟨hname, mode_dt_consumerStep i hmode,
          h.receivedSeqs_subset hmode hreceived⟩⟩
    | _ => exact htask
  have hold : ∀ task ∈ s.driver.tasks, task.Owned cfg (consumerStep cfg s e).core :=
    fun task htask => hmono (h.tasks task htask)
  have herase : ∀ index, ∀ task ∈ s.driver.tasks.eraseIdx index,
      task.Owned cfg (consumerStep cfg s e).core :=
    fun index task htask => hold task (mem_of_mem_eraseIdx htask)
  have hmove := s.moves cfg e
  have hdriver : (consumerStep cfg s e).driver = (s.move cfg e).driver := rfl
  rw [hdriver]
  generalize hm : s.move cfg e = m at hmove ⊢
  intro task htask
  cases hmove with
  | accept hget hdata =>
    rcases mem_cons.mp htask with rfl | htask
    · exact h.accepted hget hdata (by rw [hm])
    · exact hold task htask
  | nackPD hget hlock hmode =>
    rcases mem_cons.mp htask with rfl | htask
    · obtain ⟨k, hissued⟩ := h.attempt hget
      exact ⟨k, hissued.range, hmode ▸ hissued.names⟩
    · exact hold task htask
  | @expirePD item ctl now hlock hpop hcurrent hmode =>
    rcases mem_cons.mp htask with rfl | htask
    · obtain ⟨a, hlookup, hpd⟩ := Option.map_eq_some_iff.mp hmode
      rw [(popExpired_active hpop).1] at hlookup
      have hissued := h.core.active item.name a hlookup
      obtain ⟨expiration, hmem, -⟩ := popExpired_pq hpop
      obtain ⟨mode, hitem⟩ := h.core.timers item (mem_append_right _ (mem_map_of_mem hmem))
      obtain ⟨hflow, -⟩ := hissued.names.unique hitem.names
      exact ⟨_, hissued.range, hflow ▸ hpd ▸ hissued.names⟩
    · exact hold task htask
  | onNack | onTimeout | complete => exact herase _ task htask
  | _ => exact hold task htask

lemma step : Owned cfg (consumerStep cfg s e) where
  core := h.core_step.1
  stamped := h.core_step.2
  senders i := by
    have hsender := (s.moves cfg e).senders h i
    exact ⟨hsender.nonneg, hsender.le, hsender.pc.mono mode_dt_consumerStep⟩
  attempts a ha := by
    obtain ⟨k, hissued⟩ := (s.moves cfg e).attempts h ha
    exact ⟨k, hissued.mono mode_dt_consumerStep⟩
  tasks := h.tasks_step
  undiscovered hinit i := by
    refine flow_step (I := fun f => f.mode = .dt ∧ f.pdFinished = false)
      (fun f op hf _ => ?_) (h.undiscovered hinit i) (h.meets_stays (h.undiscovered hinit i).1)
    have hstep : DtStep cfg f op (flowStep cfg f op) := dtStep_flowStep hf.1
    exact ⟨hstep.mode_eq hf.1, hstep.sameFlags.pdFinished.trans hf.2⟩
  started hinit i hmode := by
    by_cases hswitch : ∃ now, (s.move cfg e).op = some (.onFlow i (.switch now))
    · obtain ⟨now, hop⟩ := hswitch
      have hstarter : (s.move cfg e).driver.starters i = .switched :=
        ((s.moves cfg e).switch h hop).2
      exact fun hidle => Starter.noConfusion (hstarter.symm.trans hidle)
    · refine (s.moves cfg e).starters (h.started hinit i ?_)
      rw [← h.mode_eq fun now hop => hswitch ⟨now, hop⟩]
      exact hmode

end Owned

end Step

lemma owned_new (cfg : ConsumerConfig) (now : Time) : Owned cfg (.new cfg now) where
  core :=
    { discovering := fun i => by
        simp only [new, newFlowContext]
        cases cfg.initialMode <;> exact fun _ => rfl
      named := fun i => flowNamed_new
      active := fun name a h => by cases h
      timers := fun item h => by cases h
      adding := fun _ _ _ _ _ h => by cases h }
  stamped := ⟨fun name a h => (by cases h), fun item h => (by cases h), fun item h => (by cases h)⟩
  senders i := ⟨le_rfl, Int.natCast_nonneg _, trivial⟩
  attempts a ha := by cases ha
  tasks task htask := by cases htask
  undiscovered hinit i := by
    simp only [new, newFlowContext, hinit]
    exact ⟨rfl, rfl⟩
  started hinit i hmode := by
    simp only [new, newFlowContext, hinit] at hmode
    cases hmode

/-- Every name that the consumer holds, in every run, is one that a flow made. -/
theorem owned_run {now : Time} {es : List ConsumerEvent} :
    Owned cfg (consumerRun cfg (.new cfg now) es) :=
  Steps.run_invariant (I := Owned cfg) (fun _ _ h => h.step) (owned_new cfg now) es

end Mars
