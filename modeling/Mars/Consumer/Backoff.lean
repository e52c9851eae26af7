import Mars.Consumer.FastRepair

/-!
The backoff level of the retransmission timer, and the timer of a level.

* `Core.repairQueued`, `Core.timerExpires`: a step that queues a fast repair of the attempt at hand,
  and one in which its timer expires;
* `attempt_run`: what becomes of an attempt while it stays current;
* `rto_backoff_level`: the next attempt has the next level, unless a fast repair was queued;
* `rto_backoff_stalls`: a timer that expires after a fast repair was queued does not raise it;
* `backedOffRTO_succ`, `retransmissionJitter_mem`: the two parts of a timer;
* `retransmissionTimeout_backs_off`: it is bounded, and longer at the next level.
-/

namespace Mars

open Mars.Core AList List Steps

variable {cfg : ConsumerConfig} {c : Core} {name : Name} {current : ActiveAttempt}

/-- The step queues a fast repair of the attempt that is current for `name`. -/
def Core.repairQueued (c : Core) (name : Name) : CoreOp → Bool
  | .queueShadowFastRepairIfCurrent name' candidate flow =>
    name' = name ∧ c.lock = .free
      ∧ (c.ctl.repairTarget name candidate flow).any (!·.fastRepairTriggered)
      ∧ ((c.flows flow).queueShadowFastRepair candidate).2 = .queued
  | _ => false

/-- The timer of the attempt that is current for `name` expires in the step. -/
def Core.timerExpires (c : Core) (name : Name) : CoreOp → Bool
  | .expire now => c.lock = .free ∧ (c.ctl.popExpired now).any fun popped =>
      popped.1.name = name ∧ (c.ctl.active.lookup name).any (·.generation = popped.1.generation)
  | _ => false

/-- The step neither adds an attempt for `name` nor drops the one that is current. -/
def Core.Stays (c : Core) (name : Name) (op : CoreOp) : Prop :=
  ∀ out ∈ (c.move op).out, out ≠ .dropped name
    ∧ out ≠ .added name (c.ctl.nextGeneration + 1)

instance (c : Core) (name : Name) (op : CoreOp) : Decidable (c.Stays name op) :=
  inferInstanceAs (Decidable (∀ out ∈ (c.move op).out, out ≠ .dropped name
    ∧ out ≠ .added name (c.ctl.nextGeneration + 1)))

lemma lookup_of_repairQueued {op : CoreOp} (h : c.repairQueued name op = true) :
    ∃ current, c.ctl.active.lookup name = some current
      ∧ (coreStep cfg c op).ctl.active.lookup name
        = some { current with fastRepairTriggered := true, fastRepairQueued := true } := by
  cases op with
  | queueShadowFastRepairIfCurrent name' candidate flow =>
    obtain ⟨rfl, hlock, hany, hqueued⟩ := of_decide_eq_true h
    rw [Option.any_eq_true] at hany
    obtain ⟨current, htarget, huntriggered⟩ := hany
    refine ⟨current, (Option.filter_eq_some_iff.mp htarget).1, ?_⟩
    have huntriggered : current.fastRepairTriggered = false := by simpa using huntriggered
    simp [coreStep, apply, move, hlock, queueShadowFastRepairIfCurrentMove,
      htarget, huntriggered, hqueued]
  | _ => cases h

/-- A step that queues no fast repair leaves the attempt as it is, but for the mark of a fast repair
that was refused. -/
lemma lookup_of_not_repairQueued {op : CoreOp} (hstays : c.Stays name op)
    (h : c.repairQueued name op = false) (hcurrent : c.ctl.active.lookup name = some current)
    (hmarks : current.fastRepairQueued = true → current.fastRepairTriggered = true) :
    ∃ triggered, (coreStep cfg c op).ctl.active.lookup name
        = some { current with fastRepairTriggered := triggered }
      ∧ (current.fastRepairQueued = true → triggered = true) := by
  have hsame : ∀ ctl : RetransmissionController, ctl.active.lookup name = some current →
      ∃ triggered, ctl.active.lookup name
          = some { current with fastRepairTriggered := triggered }
        ∧ (current.fastRepairQueued = true → triggered = true) :=
    fun ctl hctl => ⟨current.fastRepairTriggered, hctl, hmarks⟩
  have hmove := c.moves op
  rw [Stays] at hstays
  rw [coreStep, apply]
  generalize c.move op = m at hstays hmove ⊢
  cases hmove with
  | addEnd now hlock =>
    refine hsame _ ((lookup_insert_ne fun heq => ?_).trans hcurrent)
    exact (hstays _ (mem_singleton.mpr rfl)).2 (by rw [heq])
  | removeIfCurrent | complete =>
    refine hsame _ ((lookup_erase_ne fun heq => ?_).trans hcurrent)
    exact (hstays _ (mem_singleton.mpr rfl)).1 (by rw [heq])
  | expirePD hlock hpop =>
    refine hsame _ ((lookup_erase_ne fun heq => ?_).trans ?_)
    · exact (hstays _ (mem_singleton.mpr rfl)).1 (by rw [heq])
    · rw [(popExpired_active hpop).1, hcurrent]
  | expireStale hlock hpop | expireDT hlock hpop =>
    exact hsame _ ((popExpired_active hpop).1 ▸ hcurrent)
  | @repair name' candidate flow current' hlock htarget huntriggered =>
    by_cases heq : name' = name
    · subst heq
      have hlookup := (Option.filter_eq_some_iff.mp htarget).1
      obtain rfl : current' = current := Option.some.inj (hlookup.symm.trans hcurrent)
      have hnot : ((c.flows flow).queueShadowFastRepair candidate).2 ≠ .queued := fun hqueued =>
        by simp [repairQueued, hlock, htarget, huntriggered, hqueued] at h
      have hmark : current'.fastRepairQueued = false := by
        cases hmark : current'.fastRepairQueued with
        | false => rfl
        | true => exact (hmarks hmark).symm.trans huntriggered
      refine ⟨true, ?_, fun _ => rfl⟩
      rw [lookup_insert, decide_eq_false hnot, ← hmark]
    · exact hsame _ ((lookup_insert_ne (Ne.symm heq)).trans hcurrent)
  | stay | onFlow | addBegin | queue | refuseRepair | expireEnd => exact hsame _ hcurrent

/-- **An attempt that stays current** keeps its sequence and its level, and is marked when a fast
repair of it is queued. -/
lemma attempt_run {ops : List CoreOp} (hcurrent : c.ctl.active.lookup name = some current)
    (hmarks : current.fastRepairQueued = true → current.fastRepairTriggered = true)
    (hstays : Guarded (coreStep cfg) (·.Stays name) c ops) :
    ∃ last, (coreRun cfg c ops).ctl.active.lookup name = some last
      ∧ last.sequenceNum = current.sequenceNum ∧ last.rtoBackoffLevel = current.rtoBackoffLevel
      ∧ (last.fastRepairQueued = false ↔ current.fastRepairQueued = false
        ∧ Guarded (coreStep cfg) (fun c op => c.repairQueued name op = false) c ops) := by
  induction ops generalizing c current with
  | nil => exact ⟨current, hcurrent, rfl, rfl, (and_iff_left trivial).symm⟩
  | cons op ops ih =>
    cases hrepair : c.repairQueued name op with
    | true =>
      obtain ⟨current', hlookup, hnext⟩ := lookup_of_repairQueued hrepair
      obtain rfl : current' = current := Option.some.inj (hlookup.symm.trans hcurrent)
      obtain ⟨last, hlast, hseq, hlevel, hmark⟩ := ih hnext (fun _ => rfl) hstays.2
      refine ⟨last, hlast, hseq, hlevel, hmark.trans ?_⟩
      simp [Guarded, hrepair]
    | false =>
      obtain ⟨triggered, hnext, hmarks'⟩ :=
        lookup_of_not_repairQueued hstays.1 hrepair hcurrent hmarks
      obtain ⟨last, hlast, hseq, hlevel, hmark⟩ := ih hnext hmarks' hstays.2
      refine ⟨last, hlast, hseq, hlevel, hmark.trans ?_⟩
      simp [Guarded, hrepair]

/-- **The level of the timer.** An attempt is added for `name`, and the next one for the same name
and sequence after any steps that keep the first one current. The level rises by one, unless a fast
repair of the first attempt was queued; then it stays. So it rises for an attempt whose timer
expired, and stays for one that was repaired before that, exactly if it was not both. -/
theorem rto_backoff_level (cfg : ConsumerConfig) (c : Core) {name : Name} {seq : ℤ}
    {flow flow' : ℕ} {mode mode' : TransmissionMode} {baseRTO baseRTO' : ℚ}
    (hadding : c.lock = .adding name seq flow mode baseRTO) (now now' : Time) (ops : List CoreOp) :
    let first := coreStep cfg c (.addEnd now)
    let last := coreRun cfg first ops
    Guarded (coreStep cfg) (·.Stays name) first ops →
    last.lock = .adding name seq flow' mode' baseRTO' →
    ∃ old new, first.ctl.active.lookup name = some old
      ∧ (coreStep cfg last (.addEnd now')).ctl.active.lookup name = some new
      ∧ new.generation = last.ctl.nextGeneration + 1
      ∧ (new.rtoBackoffLevel = if Guarded (coreStep cfg)
          (fun c op => c.repairQueued name op = false) first ops
        then old.rtoBackoffLevel + 1 else old.rtoBackoffLevel)
      ∧ let repaired :=
          ¬Guarded (coreStep cfg) (fun c op => c.repairQueued name op = false) first ops
        let expired :=
          ¬Guarded (coreStep cfg) (fun c op => c.timerExpires name op = false) first ops
        ((expired → new.rtoBackoffLevel = old.rtoBackoffLevel + 1)
            ∧ (repaired → ¬expired → new.rtoBackoffLevel = old.rtoBackoffLevel)
          ↔ ¬(repaired ∧ expired)) := by
  intro first last hstays hadding'
  -- `Add` makes its attempt current
  have hadd : ∀ (c : Core) flow mode baseRTO now, c.lock = .adding name seq flow mode baseRTO →
      (coreStep cfg c (.addEnd now)).ctl.active.lookup name
        = some (c.ctl.newAttempt name seq flow mode baseRTO) := by
    intro c flow mode baseRTO now hlock
    simp only [coreStep, apply, move, addEndMove, hlock]
    exact lookup_insert _
  have hold := hadd c flow mode baseRTO now hadding
  obtain ⟨current, hcurrent, hseq, hlevel, hmark⟩ := attempt_run hold (fun h => by cases h) hstays
  refine ⟨_, _, hold, hadd last flow' mode' baseRTO' now' hadding', rfl, ?_⟩
  suffices hrise : (last.ctl.newAttempt name seq flow' mode' baseRTO').rtoBackoffLevel = _ by
    refine ⟨hrise, ?_⟩
    rw [hrise]
    split_ifs with hnone <;> simp [hnone]
  have hseq : current.sequenceNum = seq := hseq
  have hnext : (last.ctl.newAttempt name seq flow' mode' baseRTO').rtoBackoffLevel
      = if current.fastRepairQueued then current.rtoBackoffLevel
        else current.rtoBackoffLevel + 1 := by
    rw [RetransmissionController.newAttempt, show last.ctl.active.lookup name = _ from hcurrent]
    simp only [hseq, if_true]
  rw [hnext, hlevel]
  cases hqueued : current.fastRepairQueued with
  | false => rw [if_pos (hmark.mp hqueued).2, if_neg Bool.false_ne_true]
  | true =>
    have hrepaired : ¬Guarded (coreStep cfg)
        (fun c op => c.repairQueued name op = false) first ops := fun hnone => by
      rw [hmark.mpr ⟨rfl, hnone⟩] at hqueued
      cases hqueued
    rw [if_neg hrepaired, if_pos rfl]

/-- An Interest is sent, its timer expires and it is sent again. -/
theorem rto_backoff_level_expired :
    let cfg := soleConsumer .dt
    let name := cfg.dtName 0 1
    let c := coreRun cfg { flows := fun i => newFlowContext cfg i 0 }
      [.onFlow 0 (.record name 1 0 false), .addBegin name 1 0 .dt]
    let first := coreStep cfg c (.addEnd 0)
    let last := coreRun cfg first
      [.expire 4000000000, .expireEnd, .onFlow 0 .pop, .addBegin name 1 0 .dt]
    (last.ctl.pq = [] ∧ (last.flows 0).timeoutEvents = 1)
      ∧ ∃ old new, first.ctl.active.lookup name = some old
        ∧ (coreStep cfg last (.addEnd 4000000000)).ctl.active.lookup name = some new
        ∧ new.rtoBackoffLevel = old.rtoBackoffLevel + 1 := by
  intro cfg name c first last
  refine ⟨by decide +kernel, ?_⟩
  have hadding : c.lock = .adding name 1 0 .dt 480 := by decide +kernel
  have hadding' : last.lock = .adding name 1 0 .dt 480 := by decide +kernel
  obtain ⟨old, new, hold, hnew, -, -, hiff⟩ := rto_backoff_level cfg c hadding 0 4000000000 _
    (by decide +kernel) hadding'
  exact ⟨old, new, hold, hnew, (hiff.mpr (by decide +kernel)).1 (by decide +kernel)⟩

/-- **A timer that expires after a fast repair was queued does not raise the level.** All but the
first of nine packets are answered; a scan finds the first one overdue and its fast repair is
queued. The timer of its attempt then expires before the sender takes the repair from the queue; the
next attempt is back at the level of the expired one. -/
theorem rto_backoff_stalls :
    let expired := overdueQueued
      ++ [.expire (600 * millisecond), .expireEnd, .expire (600 * millisecond), .expireEnd]
    let sent := expired ++ .tick 0 (610 * millisecond)
      :: replicate 8 (.advance 0 (610 * millisecond) true)
    let core es := (consumerRun nineConsumer (.new nineConsumer 0) es).core
    let attempt es := ((core es).ctl.active.lookup (nineConsumer.dtName 0 1)).map
      fun current => (current.generation, current.rtoBackoffLevel)
    attempt overdueQueued = some (1, 0) ∧ attempt expired = some (1, 0)
      ∧ (core expired).ctl.pq.all (fun item => item.1.generation ≠ 1)
      ∧ ((core expired).flows 0).shadowLoss.firstAttemptRTOs = 1
      ∧ attempt sent = some (10, 0) := by
  decide +kernel

/-! ### The timer -/

section Timer

variable {maxBaseRTO timeoutMs x y : ℚ}

lemma retransmissionJitter_mem (name : Name) (generation : ℕ) :
    -rtoJitterRatio ≤ retransmissionJitter name generation
      ∧ retransmissionJitter name generation ≤ rtoJitterRatio := by
  simp only [retransmissionJitter, rtoJitterRatio]
  generalize List.foldl _ _ _ = mixed
  have hmixed : ((mixed % 20001 : ℕ) : ℚ) ≤ 20000 := by
    exact_mod_cast Nat.le_of_lt_succ (Nat.mod_lt mixed (by omega))
  have hpos : (0 : ℚ) ≤ (mixed % 20001 : ℕ) := Nat.cast_nonneg _
  constructor <;> linarith

/-- One more level is one more round of the loop. -/
lemma backedOffRTO_succ (level : ℕ) :
    backedOffRTO maxBaseRTO timeoutMs (level + 1)
      = if backedOffRTO maxBaseRTO timeoutMs level < maxBaseRTO then
          min (backedOffRTO maxBaseRTO timeoutMs level * 2) maxBaseRTO
        else backedOffRTO maxBaseRTO timeoutMs level := by
  induction level generalizing timeoutMs with
  | zero => rfl
  | succ level ih =>
    by_cases hlt : timeoutMs < maxBaseRTO
    · have hround : ∀ n, backedOffRTO maxBaseRTO timeoutMs (n + 1)
          = backedOffRTO maxBaseRTO (min (timeoutMs * 2) maxBaseRTO) n := fun n => if_pos hlt
      rw [hround, hround]
      exact ih
    · have hstop : ∀ n, backedOffRTO maxBaseRTO timeoutMs (n + 1) = timeoutMs := fun n => if_neg hlt
      rw [hstop, hstop, if_neg hlt]

lemma le_backedOffRTO (hpos : 0 ≤ timeoutMs) (hmax : timeoutMs ≤ maxBaseRTO) (level : ℕ) :
    timeoutMs ≤ backedOffRTO maxBaseRTO timeoutMs level := by
  induction level with
  | zero => exact le_rfl
  | succ level ih =>
    rw [backedOffRTO_succ]
    split_ifs
    · exact le_min (by linarith) hmax
    · exact ih

lemma durationOfMs_eq_floor (hx : 0 ≤ x) : durationOfMs x = ⌊x * 1000000⌋ := by
  have hnum : 0 ≤ (x * 1000000).num := Rat.num_nonneg.mpr (by linarith)
  rw [durationOfMs, Int.tdiv_eq_ediv_of_nonneg hnum]
  exact (Rat.floor_def _).symm

lemma durationOfMs_le (hx : 0 ≤ x) (hxy : x ≤ y) : durationOfMs x ≤ durationOfMs y := by
  rw [durationOfMs_eq_floor hx, durationOfMs_eq_floor (hx.trans hxy)]
  exact Int.floor_le_floor (by linarith)

/-- Timeouts that differ by a millisecond differ as durations. -/
lemma durationOfMs_lt (hx : 0 ≤ x) (hxy : x + 1 ≤ y) : durationOfMs x < durationOfMs y := by
  rw [durationOfMs_eq_floor hx, durationOfMs_eq_floor (by linarith), Int.lt_iff_add_one_le,
    Int.le_floor]
  push_cast
  linarith [Int.floor_le (x * 1000000)]

end Timer

/-- **The timer is bounded, and a level makes it longer**: for every level, of which those below `0`
are level `0`, it is between `MIN_RTO` and `MAX_RTO`; whatever the jitter of the two timers, the one
of the next level is the longer one while its base does not reach the cap. -/
theorem retransmissionTimeout_backs_off (baseRTO : ℚ) :
    (∀ (backoffLevel : ℤ) (name : Name) (generation : ℕ),
      durationOfMs minRto ≤ retransmissionTimeout baseRTO backoffLevel.toNat name generation
        ∧ retransmissionTimeout baseRTO backoffLevel.toNat name generation ≤ durationOfMs maxRto)
      ∧ ∀ (level : ℕ) (name name' : Name) (generation generation' : ℕ),
        let maxBaseRTO := maxRto / (1 + rtoJitterRatio)
        2 * backedOffRTO maxBaseRTO (min (max baseRTO minRto) maxBaseRTO) level ≤ maxBaseRTO →
          retransmissionTimeout baseRTO level name generation
            < retransmissionTimeout baseRTO (level + 1) name' generation' := by
  have hcap : minRto ≤ maxRto / (1 + rtoJitterRatio) := by norm_num [minRto, maxRto, rtoJitterRatio]
  constructor
  · intro backoffLevel name generation
    constructor
    · refine durationOfMs_le (by norm_num [minRto]) (le_min (le_max_right _ _) ?_)
      norm_num [minRto, maxRto]
    · refine durationOfMs_le (le_min (le_max_of_le_right ?_) ?_) (min_le_right _ _) <;>
        norm_num [minRto, maxRto]
  · intro level name name' generation generation'
    dsimp only [retransmissionTimeout]
    generalize hmax : maxRto / (1 + rtoJitterRatio) = maxBaseRTO at hcap ⊢
    intro hdouble
    have hstart : minRto ≤ min (max baseRTO minRto) maxBaseRTO := le_min (le_max_right _ _) hcap
    have hbase := hstart.trans
      (le_backedOffRTO ((by norm_num [minRto] : 0 ≤ minRto).trans hstart) (min_le_right _ _) level)
    rw [backedOffRTO_succ]
    generalize backedOffRTO maxBaseRTO _ level = b at hdouble hbase ⊢
    obtain ⟨-, hjitter⟩ := retransmissionJitter_mem name generation
    obtain ⟨hjitter', hjitter''⟩ := retransmissionJitter_mem name' generation'
    generalize retransmissionJitter name generation = j at hjitter ⊢
    generalize retransmissionJitter name' generation' = j' at hjitter' hjitter'' ⊢
    simp only [minRto, maxRto, rtoJitterRatio] at *
    rw [if_pos (by linarith), min_eq_left (by linarith : b * 2 ≤ maxBaseRTO)]
    -- the longest timer of this level and the shortest one of the next
    have hthis : b * (1 + j) ≤ b * (11 / 10) :=
      mul_le_mul_of_nonneg_left (by linarith) (by linarith)
    have hnext : b * 2 * (9 / 10) ≤ b * 2 * (1 + j') :=
      mul_le_mul_of_nonneg_left (by linarith) (by linarith)
    have hnext' : b * 2 * (1 + j') ≤ 3500 := by
      calc b * 2 * (1 + j') ≤ b * 2 * (11 / 10) :=
            mul_le_mul_of_nonneg_left (by linarith) (by linarith)
        _ ≤ 3500 := by linarith
    refine durationOfMs_lt (le_min (le_max_of_le_right (by norm_num)) (by norm_num)) ?_
    calc min (max (b * (1 + j)) 240) 3500 + 1 ≤ b * (11 / 10) + 1 := by
          have := max_le hthis (by linarith : (240 : ℚ) ≤ b * (11 / 10))
          linarith [min_le_left (max (b * (1 + j)) 240) 3500]
      _ ≤ b * 2 * (1 + j') := by linarith
      _ ≤ min (max (b * 2 * (1 + j')) 240) 3500 := le_min (le_max_left _ _) hnext'

theorem retransmissionTimeout_backs_off_once :
    retransmissionTimeout 300 0 [['a']] 1 < retransmissionTimeout 300 1 [['b']] 2 :=
  (retransmissionTimeout_backs_off 300).2 0 _ _ _ _ (by decide +kernel)

end Mars
