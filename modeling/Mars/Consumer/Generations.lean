import Mars.Consumer.Controller

/-!
Superseded attempts are inert.

* `addedGenerations`, `liveGenerations`: the generations that were handed out, and those of a name
  since it was last completed or removed;
* `Generational`: the invariant: generations grow, and the current attempt of a name has the
  largest live one; `generational_step`;
* `CoreOp.carries`: the name and generation that a step comes with;
* `superseded_attempts_inert`: a step whose generation is not current changes nothing but a counter.
-/

namespace Mars

open List RetransmissionController Option Mars.Core

variable {cfg : ConsumerConfig} {c : Core} {out : List CoreOut} {name : Name}
  {rc rc' : RetransmissionController} {out' : List CoreOut}

/-- The generations that were handed out, in order. -/
def addedGenerations (out : List CoreOut) : List ℕ :=
  out.filterMap fun
    | .added _ generation => some generation
    | _ => none

/-- The generations of `name` after one more report. -/
def liveStep (name : Name) (live : List ℕ) : CoreOut → List ℕ
  | .added name' generation => if name' = name then live ++ [generation] else live
  | .dropped name' => if name' = name then [] else live
  | .onFlow _ _ => live

/-- The generations that were added for `name` since it was last completed or removed. -/
def liveGenerations (name : Name) (out : List CoreOut) : List ℕ := out.foldl (liveStep name) []

lemma addedGenerations_append :
    addedGenerations (out ++ out') = addedGenerations out ++ addedGenerations out' :=
  filterMap_append

lemma liveGenerations_append :
    liveGenerations name (out ++ out') = out'.foldl (liveStep name) (liveGenerations name out) :=
  foldl_append

lemma addedGenerations_map_onFlow {flow : ℕ} {out : List FlowOut} :
    addedGenerations (out.map (.onFlow flow)) = [] := by
  simp [addedGenerations, filterMap_map]

lemma foldl_liveStep_map_onFlow {flow : ℕ} {out : List FlowOut} {live : List ℕ} :
    (out.map (.onFlow flow)).foldl (liveStep name) live = live := by
  induction out with
  | nil => rfl
  | cons o out ih => exact ih

/-- The generation that is current for a name. -/
def RetransmissionController.currentGeneration (rc : RetransmissionController) (name : Name) :
    Option ℕ := (rc.active.lookup name).map ActiveAttempt.generation

lemma isCurrent_iff {generation : ℕ} :
    rc.isCurrent name generation = true ↔ rc.currentGeneration name = some generation := by
  rw [RetransmissionController.isCurrent, RetransmissionController.currentGeneration,
    Option.any_eq_true, Option.map_eq_some_iff]
  simp

/-! ### What a move does to the generations -/

/-- A move of the controller hands out a new generation, drops a name, or leaves the current
generations as they are. -/
inductive Turnover (rc : RetransmissionController) : RetransmissionController → List CoreOut → Prop
  | same {rc' : RetransmissionController} (hnext : rc'.nextGeneration = rc.nextGeneration)
      (hcurrent : ∀ name, rc'.currentGeneration name = rc.currentGeneration name) :
      Turnover rc rc' []
  | added {rc' : RetransmissionController} (name : Name)
      (hnext : rc'.nextGeneration = rc.nextGeneration + 1)
      (hcurrent : ∀ name', rc'.currentGeneration name'
        = if name' = name then some (rc.nextGeneration + 1) else rc.currentGeneration name') :
      Turnover rc rc' [.added name (rc.nextGeneration + 1)]
  | dropped {rc' : RetransmissionController} (name : Name)
      (hnext : rc'.nextGeneration = rc.nextGeneration)
      (hcurrent : ∀ name', rc'.currentGeneration name'
        = if name' = name then none else rc.currentGeneration name') :
      Turnover rc rc' [.dropped name]

lemma Turnover.currentGeneration_of_nil (h : Turnover rc rc' []) :
    rc'.currentGeneration name = rc.currentGeneration name := by
  cases h with
  | same hnext hcurrent => exact hcurrent name

lemma turnover_remove : Turnover rc (rc.remove name) [.dropped name] := by
  refine .dropped name rfl fun name' => ?_
  rw [currentGeneration, remove, AList.lookup_erase_eq]
  split_ifs <;> rfl

lemma popExpired_active {now : Time} {item : PendingPacket}
    (h : rc.popExpired now = some (item, rc')) :
    rc'.active = rc.active ∧ rc'.nextGeneration = rc.nextGeneration := by
  rw [popExpired, map_eq_some_iff] at h
  obtain ⟨⟨item', rest⟩, -, heq⟩ := h
  cases heq
  exact ⟨rfl, rfl⟩

lemma currentGeneration_congr (h : rc'.active = rc.active) (name : Name) :
    rc'.currentGeneration name = rc.currentGeneration name := by
  rw [currentGeneration, h]
  rfl

lemma Core.Moves.turnover {op : CoreOp} {m : CoreMove} (h : c.Moves op m) :
    Turnover c.ctl m.ctl m.out := by
  cases h with
  | stay | onFlow | addBegin | queue | refuseRepair | expireEnd => exact .same rfl fun _ => rfl
  | @addEnd name seq flow mode baseRTO now hlock =>
    refine .added name rfl fun name' => ?_
    rw [currentGeneration, add, AList.lookup_insert_eq]
    split_ifs <;> rfl
  | removeIfCurrent | complete => exact turnover_remove
  | @repair name candidate flow current hlock htarget huntriggered =>
    refine .same rfl fun name' => ?_
    have hlookup : c.ctl.active.lookup name = some current :=
      (filter_eq_some_iff.mp htarget).1
    rw [currentGeneration, currentGeneration, AList.lookup_insert_eq]
    split_ifs with heq
    · rw [heq, hlookup]
      rfl
    · rfl
  | expireStale hlock hpop | expireDT hlock hpop =>
    exact .same (popExpired_active hpop).2 (currentGeneration_congr (popExpired_active hpop).1)
  | @expirePD item ctl now hlock hpop =>
    obtain ⟨hactive, hnext⟩ := popExpired_active hpop
    refine .dropped item.name hnext fun name' => ?_
    rw [currentGeneration, currentGeneration, remove, AList.lookup_erase_eq, hactive]
    split_ifs <;> rfl

/-! ### The invariant -/

/-- The generations of the reports and of the controller agree. -/
structure Generational (out : List CoreOut) (rc : RetransmissionController) : Prop where
  increasing : (addedGenerations out).Pairwise (· < ·)
  added_le : ∀ g ∈ addedGenerations out, g ≤ rc.nextGeneration
  live_le : ∀ name, ∀ g ∈ liveGenerations name out, g ≤ rc.nextGeneration
  current : ∀ name, rc.currentGeneration name = (liveGenerations name out).max?

lemma max?_concat {live : List ℕ} {generation : ℕ} (h : ∀ g ∈ live, g ≤ generation) :
    (live ++ [generation]).max? = some generation := by
  rw [max?_eq_some_iff]
  refine ⟨mem_append_right _ (mem_singleton_self generation), fun g hg => ?_⟩
  rcases mem_append.mp hg with hg | hg
  · exact h g hg
  · exact (mem_singleton.mp hg).le

lemma Generational.turnover (h : Generational out rc) (ht : Turnover rc rc' out') :
    Generational (out ++ out') rc' := by
  cases ht with
  | same hnext hcurrent =>
    rw [append_nil]
    exact ⟨h.increasing, hnext ▸ h.added_le, hnext ▸ h.live_le,
      fun name => (hcurrent name).trans (h.current name)⟩
  | added name hnext hcurrent =>
    have hlive : ∀ name', liveGenerations name' (out ++ [.added name (rc.nextGeneration + 1)])
        = if name = name' then liveGenerations name' out ++ [rc.nextGeneration + 1]
          else liveGenerations name' out := fun name' => liveGenerations_append
    refine ⟨?_, ?_, ?_, ?_⟩
    · rw [addedGenerations_append]
      refine pairwise_append.mpr ⟨h.increasing, pairwise_singleton _ _, ?_⟩
      intro g hg g' hg'
      rw [mem_singleton.mp hg']
      exact Nat.lt_succ_of_le (h.added_le g hg)
    · intro g hg
      rw [addedGenerations_append, mem_append] at hg
      rw [hnext]
      rcases hg with hg | hg
      · exact Nat.le_succ_of_le (h.added_le g hg)
      · exact (mem_singleton.mp hg).le
    · intro name' g hg
      rw [hlive] at hg
      rw [hnext]
      split_ifs at hg
      · rcases mem_append.mp hg with hg | hg
        · exact Nat.le_succ_of_le (h.live_le name' g hg)
        · exact (mem_singleton.mp hg).le
      · exact Nat.le_succ_of_le (h.live_le name' g hg)
    · intro name'
      rw [hcurrent, hlive]
      by_cases hname : name' = name
      · rw [if_pos hname, if_pos hname.symm,
          max?_concat fun g hg => Nat.le_succ_of_le (h.live_le name' g hg)]
      · rw [if_neg hname, if_neg fun heq => hname heq.symm, h.current]
  | dropped name hnext hcurrent =>
    have hlive : ∀ name', liveGenerations name' (out ++ [.dropped name])
        = if name = name' then [] else liveGenerations name' out :=
      fun name' => liveGenerations_append
    refine ⟨?_, ?_, ?_, ?_⟩
    · rw [addedGenerations_append]
      exact (append_nil (addedGenerations out)).symm ▸ h.increasing
    · rw [addedGenerations_append, hnext]
      exact (append_nil (addedGenerations out)).symm ▸ h.added_le
    · intro name' g hg
      rw [hlive] at hg
      rw [hnext]
      split_ifs at hg
      · cases hg
      · exact h.live_le name' g hg
    · intro name'
      rw [hcurrent, hlive]
      by_cases hname : name' = name
      · rw [if_pos hname, if_pos hname.symm]
        rfl
      · rw [if_neg hname, if_neg fun heq => hname heq.symm, h.current]

/-- The reports of a flow say nothing about generations. -/
lemma Generational.onFlow (h : Generational out rc) {flow : ℕ} {reports : List FlowOut} :
    Generational (out ++ reports.map (.onFlow flow)) rc := by
  have hlive : ∀ name, liveGenerations name (out ++ reports.map (.onFlow flow))
      = liveGenerations name out := by
    intro name
    rw [liveGenerations_append, foldl_liveStep_map_onFlow]
  have hadded : addedGenerations (out ++ reports.map (.onFlow flow)) = addedGenerations out := by
    rw [addedGenerations_append, addedGenerations_map_onFlow, append_nil]
  refine ⟨hadded ▸ h.increasing, hadded ▸ h.added_le, ?_, ?_⟩
  · simpa only [hlive] using h.live_le
  · simpa only [hlive] using h.current

lemma generational_step (h : Generational out c.ctl) {op : CoreOp} :
    Generational (out ++ c.report cfg (c.move op)) (coreStep cfg c op).ctl := by
  rw [Core.report, ← append_assoc]
  exact (h.turnover (c.moves op).turnover).onFlow

lemma generational_run (cfg : ConsumerConfig) (flows : ℕ → FlowContext) (ops : List CoreOp) :
    Generational (coreTrace cfg { flows := flows } ops)
      (coreRun cfg { flows := flows } ops).ctl := by
  induction ops using reverseRecOn with
  | nil => exact ⟨Pairwise.nil, by simp [coreTrace, addedGenerations],
      by simp [coreTrace, liveGenerations], fun _ => rfl⟩
  | append_singleton ops op ih =>
    rw [coreTrace_concat, coreRun_concat]
    exact generational_step ih

/-! ### Steps of superseded attempts -/

/-- The name and the generation that a step comes with: those of a NACK or a cancellation, of the
candidate of a fast repair, or of the timer that expired. -/
def CoreOp.carries (c : Core) : CoreOp → Option (Name × ℕ)
  | .removeIfCurrent name generation => some (name, generation)
  | .queueRetransmissionIfCurrent name generation => some (name, generation)
  | .queueShadowFastRepairIfCurrent name candidate _ => some (name, candidate.generation)
  | .expire now => (c.ctl.popExpired now).map fun found => (found.1.name, found.1.generation)
  | _ => none

/-- A flow is left as it is, but for the counter of stale fast repairs. -/
def BumpsStale (f f' : FlowContext) : Prop :=
  f' = f ∨ f' = { f with shadowLoss := { f.shadowLoss with
    fastRepairStale := f.shadowLoss.fastRepairStale + 1 } }

/-- A step whose attempt is not current leaves the attempts and the flows alone. -/
lemma inert_of_superseded {op : CoreOp} {generation : ℕ}
    (hcarries : op.carries c = some (name, generation))
    (hsuperseded : c.ctl.currentGeneration name ≠ some generation) :
    (coreStep cfg c op).ctl.active = c.ctl.active
      ∧ ∀ i, BumpsStale (c.flows i) ((coreStep cfg c op).flows i) := by
  have hstay : c.ctl.active = c.ctl.active ∧ ∀ i, BumpsStale (c.flows i) (c.flows i) :=
    ⟨rfl, fun _ => .inl rfl⟩
  rw [coreStep]
  generalize hm : c.move op = m
  have hmoves : c.Moves op m := hm ▸ c.moves op
  cases hmoves with
  | stay =>
    rw [apply_stay]
    exact hstay
  | removeIfCurrent hlock hcurrent =>
    cases hcarries
    exact absurd (isCurrent_iff.mp hcurrent) hsuperseded
  | queue hlock hlookup hgeneration =>
    cases hcarries
    refine absurd ?_ hsuperseded
    rw [currentGeneration, hlookup, map_some, hgeneration]
  | @refuseRepair name' candidate flow outcome hlock houtcome =>
    cases hcarries
    refine ⟨rfl, fun i => ?_⟩
    by_cases hi : i = flow
    · subst hi
      -- the candidate is stale, since its attempt is not current
      have hstale : c.ctl.repairTarget name candidate i = none := by
        rw [repairTarget, filter_eq_none_iff]
        intro current hlookup hmatch
        have hgeneration : current.generation = candidate.generation := by
          simpa using (of_decide_eq_true hmatch).1
        exact hsuperseded (by
          rw [currentGeneration, hlookup, map_some, hgeneration])
      have hops : outcome = .stale := by
        simp only [move, hlock, ne_eq, not_true, if_false,
          queueShadowFastRepairIfCurrentMove, hstale] at hm
        cases hm
        rfl
      subst hops
      refine .inr ?_
      rw [apply_flows, if_pos rfl]
      rfl
    · refine .inl ?_
      rw [apply_flows, if_neg hi]
  | repair hlock htarget huntriggered =>
    cases hcarries
    obtain ⟨hlookup, hmatch⟩ := filter_eq_some_iff.mp htarget
    refine absurd ?_ hsuperseded
    rw [currentGeneration, hlookup, map_some, (of_decide_eq_true hmatch).1]
  | expireStale hlock hpop =>
    refine ⟨(popExpired_active hpop).1, fun i => .inl ?_⟩
    simp [apply, flowRun]
  | expirePD hlock hpop hcurrent | expireDT hlock hpop hcurrent =>
    rw [CoreOp.carries, hpop] at hcarries
    cases hcarries
    rw [isCurrent_iff, currentGeneration_congr (popExpired_active hpop).1] at hcurrent
    exact absurd hcurrent hsuperseded
  | _ => cases hcarries

/-- **Superseded attempts are inert**: in every order of the steps of the controller and of the
flows, over any names, the generations that `Add` hands out increase, the current attempt of a name
has the largest one since the name was last completed or removed, and a step that comes with any
other generation leaves `active`, `pendingSends` and `retxQueued` as they are. -/
theorem superseded_attempts_inert (cfg : ConsumerConfig) (flows : ℕ → FlowContext)
    (ops : List CoreOp) :
    let c := coreRun cfg { flows := flows } ops
    let out := coreTrace cfg { flows := flows } ops
    (addedGenerations out).Pairwise (· < ·)
      ∧ (∀ name, (c.ctl.active.lookup name).map ActiveAttempt.generation
        = (liveGenerations name out).max?)
      ∧ ∀ op name generation, CoreOp.carries c op = some (name, generation) →
        (c.ctl.active.lookup name).map ActiveAttempt.generation ≠ some generation →
        (coreStep cfg c op).ctl.active = c.ctl.active
          ∧ ∀ i, ((coreStep cfg c op).flows i).pendingSends = (c.flows i).pendingSends
            ∧ ((coreStep cfg c op).flows i).retxQueued = (c.flows i).retxQueued
            ∧ BumpsStale (c.flows i) ((coreStep cfg c op).flows i) := by
  intro c out
  have hrun := generational_run cfg flows ops
  refine ⟨hrun.increasing, hrun.current, fun op name generation hcarries hsuperseded => ?_⟩
  obtain ⟨hactive, hflows⟩ := inert_of_superseded hcarries hsuperseded
  refine ⟨hactive, fun i => ?_⟩
  obtain heq | heq := hflows i
  · exact ⟨by rw [heq], by rw [heq], .inl heq⟩
  · exact ⟨by rw [heq], by rw [heq], .inr heq⟩

end Mars
