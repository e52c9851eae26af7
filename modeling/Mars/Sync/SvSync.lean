import Mars.Basic
import Mars.Lib.Steps
import Mars.Sync.SvMap
import Mathlib.Data.List.TakeWhile

/-!
State vector synchronisation.

* `SvSync.onReceiveStateVector`: the walk over a received state vector, and the steady and
  suppression states; `SvSync.timerExpired`, `SvSync.sendSyncInterest`; `SvSync.setSeqNo`,
  `SvSync.incrSeqNo`;
* `Covers`: ranges that follow each other without a gap;
* `Joins`: the state of a name and a boot time is raised to the maximum of the values read, and the
  updates cover what is new; `joins_visit`, `joins_walk`, `joins_onReceiveStateVector`;
* `state_vectors_are_joined`: over any sequence of state vectors;
* `far_future_vector_ignored`: a vector with a boot time in the far future.
-/

namespace Mars.Sync

open SvMap List Function

/-! ### The instance -/

/-- `SvSyncUpdate`. -/
structure SvSyncUpdate (N : Type*) where
  name : N
  boot : ℕ
  high : ℕ
  low : ℕ
  deriving DecidableEq

/-- `SvSync`. -/
structure SvSync (κ W : Type*) where
  state : SvMap κ ℕ
  mtime : FinMap κ Time
  suppress : Bool
  merge : SvMap κ ℕ
  passiveWiresSv : SvMap κ W

/-- `SvSyncOpts`, and the keys of names. -/
structure SvSyncOpts (N κ : Type*) where
  bootTime : ℕ
  suppressionPeriod : Time
  passive : Bool
  tlvStr : N → κ

/-- A received state vector with its wire. -/
structure RecvSv (N W : Type*) where
  sv : List (StateVectorEntry N)
  data : W

/-- What may happen next. -/
inductive SvSyncEvent (N W : Type*) where
  | receive (args : RecvSv N W) (now : Time)
  | timerExpired
  | sendSyncInterest
  | setSeqNo (name : N) (seqNo : ℕ)
  | incrSeqNo (name : N)

/-- Why a local sequence number is refused; a passive instance panics. -/
inductive SeqNoError where
  | passive
  | notGreater

/-- What the walk over a state vector keeps. -/
structure SvWalk (N κ W : Type*) where
  sync : SvSync κ W
  isOutdated : Bool
  canDrop : Bool
  recvSv : SvMap κ ℕ
  updates : List (SvSyncUpdate N)

/-- The entries of a state vector in the order of the walk: the last of each node first. -/
def walkOrder {N : Type*} (sv : List (StateVectorEntry N)) : List (N × SeqNoEntry) :=
  sv.flatMap fun node => node.seqNoEntries.reverse.map fun entry => (node.name, entry)

/-- A boot time more than a day after the time of the clock, which is a `uint64` of seconds. -/
def farFuture (now : Time) (boot : ℕ) : Bool := (now / 1000000000 + 86400) % 2 ^ 64 < boot

namespace SvSync

variable {N κ W : Type*} [DecidableEq κ] (o : SvSyncOpts N κ)

variable (s : SvSync κ W)

/-- The time since the last update of a name is more than the suppression period; a name without one
has the zero time. -/
def staleSince (hash : κ) (now : Time) : Bool :=
  match s.mtime.lookup hash with
  | none => true
  | some t => t + o.suppressionPeriod < now

/-- The body of the walk. -/
def visit (data : W) (now : Time) (w : SvWalk N κ W) (name : N) (entry : SeqNoEntry) :
    SvWalk N κ W :=
  let hash := o.tlvStr name
  let recvSv := set w.recvSv hash entry.bootstrapTime entry.seqNo
  let known := get w.sync.state hash entry.bootstrapTime
  let newer := known < entry.seqNo
  let older := entry.seqNo < known
  { sync :=
      { state := if newer then set w.sync.state hash entry.bootstrapTime entry.seqNo
          else w.sync.state
        mtime := if newer then w.sync.mtime.insert hash now else w.sync.mtime
        suppress := w.sync.suppress
        merge :=
          if w.sync.suppress ∧ get w.sync.merge hash entry.bootstrapTime < entry.seqNo then
            set w.sync.merge hash entry.bootstrapTime entry.seqNo
          else w.sync.merge
        passiveWiresSv :=
          if o.passive ∧ known ≤ entry.seqNo then
            set w.sync.passiveWiresSv hash entry.bootstrapTime data
          else w.sync.passiveWiresSv }
    isOutdated := w.isOutdated || older
    canDrop := w.canDrop && !(older && w.sync.staleSince o hash now)
    recvSv
    updates := if newer then w.updates ++ [⟨name, entry.bootstrapTime, entry.seqNo, known + 1⟩]
      else w.updates }

/-- The walk, and whether it came to the end: a boot time in the far future ends the function. -/
def walk (data : W) (now : Time) (w : SvWalk N κ W) : List (N × SeqNoEntry) → SvWalk N κ W × Bool
  | [] => (w, true)
  | (name, entry) :: rest =>
    if farFuture now entry.bootstrapTime then (w, false)
    else walk data now (visit o data now w name entry) rest

/-- `onReceiveStateVector`, with the updates that are delivered. -/
def onReceiveStateVector (args : RecvSv N W) (now : Time) : SvSync κ W × List (SvSyncUpdate N) :=
  let (w, ended) := walk o args.data now ⟨s, false, true, ∅, []⟩ (walkOrder args.sv)
  if !ended then (w.sync, w.updates)
  else
    -- names that the received vector does not have
    let missing := !w.isOutdated && isNewerThan w.sync.state w.recvSv fun _ _ => false
    if !(w.isOutdated || missing) then ({ w.sync with suppress := false }, w.updates)
    else if w.canDrop && !missing || w.sync.suppress then (w.sync, w.updates)
    else
      ({ w.sync with
          suppress := true
          merge := ∅ }, w.updates)

/-- `timerExpired`, up to the sending. -/
def timerExpired : SvSync κ W :=
  if s.suppress ∧ isNewerThan s.state s.merge (fun a b => b < a) = false then
    { s with suppress := false }
  else s

/-- `sendSyncInterest`, which enters the steady state unless the instance is passive. -/
def sendSyncInterest : SvSync κ W :=
  if o.passive then s else { s with suppress := false }

/-- `SetSeqNo`. -/
def setSeqNo (name : N) (seqNo : ℕ) : Except SeqNoError (SvSync κ W) :=
  if o.passive then .error .passive
  else if seqNo ≤ get s.state (o.tlvStr name) o.bootTime then .error .notGreater
  else .ok { s with state := set s.state (o.tlvStr name) o.bootTime seqNo }

/-- `IncrSeqNo`, with the number that it returns. -/
def incrSeqNo (name : N) : Except SeqNoError (SvSync κ W × ℕ) :=
  if o.passive then .error .passive
  else
    let entry := (get s.state (o.tlvStr name) o.bootTime + 1) % 2 ^ 64
    .ok ({ s with state := set s.state (o.tlvStr name) o.bootTime entry }, entry)

/-- The instance after an event, with the updates that are delivered. -/
def handle : SvSyncEvent N W → SvSync κ W × List (SvSyncUpdate N)
  | .receive args now => s.onReceiveStateVector o args now
  | .timerExpired => (s.timerExpired, [])
  | .sendSyncInterest => (s.sendSyncInterest o, [])
  | .setSeqNo name seqNo => ((s.setSeqNo o name seqNo).toOption.getD s, [])
  | .incrSeqNo name => (((s.incrSeqNo o name).toOption.map Prod.fst).getD s, [])

end SvSync

/-! ### Ranges -/

/-- Ranges, by their lowest and highest number, that cover what is above `lo` up to `hi`. -/
def Covers (lo hi : ℕ) : List (ℕ × ℕ) → Prop
  | [] => lo = hi
  | (low, high) :: ranges => low = lo + 1 ∧ low ≤ high ∧ Covers high hi ranges

lemma Covers.append {a b c : ℕ} {ranges ranges' : List (ℕ × ℕ)} (h : Covers a b ranges)
    (h' : Covers b c ranges') : Covers a c (ranges ++ ranges') := by
  induction ranges generalizing a with
  | nil =>
    obtain rfl : a = b := h
    exact h'
  | cons range ranges ih => exact ⟨h.1, h.2.1, ih h.2.2⟩

lemma covers_singleton {a b : ℕ} (h : a < b) : Covers a b [(a + 1, b)] := ⟨rfl, h, rfl⟩

/-! ### Joins -/

lemma isGreatest_foldl_max (a : ℕ) (l : List ℕ) :
    IsGreatest {v | v = a ∨ v ∈ l} (l.foldl max a) := by
  induction l generalizing a with
  | nil => exact ⟨.inl rfl, fun v hv => (hv.resolve_right not_mem_nil).le⟩
  | cons b l ih =>
    obtain ⟨hmem, hle⟩ := ih (max a b)
    constructor
    · rcases hmem with hmax | hmem
      · rcases max_choice a b with h | h
        · exact .inl (hmax.trans h)
        · exact .inr (mem_cons.mpr (.inl (hmax.trans h)))
      · exact .inr (mem_cons_of_mem b hmem)
    · rintro v (rfl | hv)
      · exact (le_max_left v b).trans (hle (.inl rfl))
      · rcases mem_cons.mp hv with rfl | hv
        · exact (le_max_right a v).trans (hle (.inl rfl))
        · exact hle (.inr hv)

namespace SvSync

variable {N κ W : Type*} [DecidableEq N]

/-- The ranges that are reported for a name and a boot time. -/
def ranges (name : N) (boot : ℕ) (updates : List (SvSyncUpdate N)) : List (ℕ × ℕ) :=
  (updates.filter fun u => u.name = name ∧ u.boot = boot).map fun u => (u.low, u.high)

/-- The sequence numbers of a name and a boot time in a walk. -/
def seqNos (name : N) (boot : ℕ) (walked : List (N × SeqNoEntry)) : List ℕ :=
  (walked.filter fun e => e.1 = name ∧ e.2.bootstrapTime = boot).map fun e => e.2.seqNo

lemma ranges_append {name : N} {boot : ℕ} {us us' : List (SvSyncUpdate N)} :
    ranges name boot (us ++ us') = ranges name boot us ++ ranges name boot us' := by
  rw [ranges, filter_append, map_append]
  rfl

lemma ranges_cons {name : N} {boot : ℕ} {u : SvSyncUpdate N} {us : List (SvSyncUpdate N)} :
    ranges name boot (u :: us) = if u.name = name ∧ u.boot = boot then
      (u.low, u.high) :: ranges name boot us else ranges name boot us := by
  rw [ranges, filter_cons]
  by_cases hkey : u.name = name ∧ u.boot = boot
  · rw [if_pos (decide_eq_true hkey), if_pos hkey]
    rfl
  · rw [if_neg fun h => hkey (of_decide_eq_true h), if_neg hkey]
    rfl

lemma seqNos_cons (name : N) (boot : ℕ) (e : N × SeqNoEntry) (walked : List (N × SeqNoEntry)) :
    seqNos name boot (e :: walked) = seqNos name boot [e] ++ seqNos name boot walked := by
  rw [seqNos, ← singleton_append, filter_append, map_append]
  rfl

lemma mem_seqNos_walkOrder {name : N} {boot seq : ℕ} {sv : List (StateVectorEntry N)} :
    seq ∈ seqNos name boot (walkOrder sv)
      ↔ ∃ node ∈ sv, node.name = name ∧ ⟨boot, seq⟩ ∈ node.seqNoEntries := by
  rw [seqNos, mem_map]
  constructor
  · rintro ⟨⟨name', entry⟩, hmem, rfl⟩
    obtain ⟨hwalked, hkey⟩ := mem_filter.mp hmem
    obtain ⟨rfl, rfl⟩ := of_decide_eq_true hkey
    obtain ⟨node, hnode, hin⟩ := mem_flatMap.mp hwalked
    obtain ⟨entry', hentry, heq⟩ := mem_map.mp hin
    obtain ⟨hname, rfl⟩ := Prod.mk.inj heq
    exact ⟨node, hnode, hname, mem_reverse.mp hentry⟩
  · rintro ⟨node, hnode, rfl, hentry⟩
    have hmem : (node.name, SeqNoEntry.mk boot seq) ∈ walkOrder sv :=
      mem_flatMap.mpr ⟨node, hnode, mem_map.mpr ⟨_, mem_reverse.mpr hentry, rfl⟩⟩
    exact ⟨_, mem_filter.mpr ⟨hmem, decide_eq_true ⟨rfl, rfl⟩⟩, rfl⟩

variable [DecidableEq κ] (o : SvSyncOpts N κ) (name : N) (boot : ℕ)

/-- From `s` to `s'` the value of a name and a boot time is raised to the maximum of `values`, and
the updates cover what is new. -/
structure Joins (s s' : SvMap κ ℕ) (updates : List (SvSyncUpdate N)) (values : List ℕ) : Prop where
  value : get s' (o.tlvStr name) boot = values.foldl max (get s (o.tlvStr name) boot)
  covers : Covers (get s (o.tlvStr name) boot) (get s' (o.tlvStr name) boot)
    (ranges name boot updates)

variable {o name boot}

lemma Joins.refl (s : SvMap κ ℕ) : Joins o name boot s s [] [] := ⟨rfl, rfl⟩

lemma Joins.trans {s s' s'' : SvMap κ ℕ} {updates updates' : List (SvSyncUpdate N)}
    {values values' : List ℕ} (h : Joins o name boot s s' updates values)
    (h' : Joins o name boot s' s'' updates' values') :
    Joins o name boot s s'' (updates ++ updates') (values ++ values') where
  value := by rw [h'.value, h.value, foldl_append]
  covers := by
    rw [ranges_append]
    exact h.covers.append h'.covers

/-- The updates of one entry. -/
def news (o : SvSyncOpts N κ) (state : SvMap κ ℕ) (name : N) (entry : SeqNoEntry) :
    List (SvSyncUpdate N) :=
  let known := get state (o.tlvStr name) entry.bootstrapTime
  if known < entry.seqNo then [⟨name, entry.bootstrapTime, entry.seqNo, known + 1⟩] else []

omit [DecidableEq N] in
lemma updates_visit {data : W} {now : Time} {w : SvWalk N κ W} {name : N} {entry : SeqNoEntry} :
    (visit o data now w name entry).updates = w.updates ++ news o w.sync.state name entry := by
  rw [visit, news]
  dsimp only
  split_ifs
  · rfl
  · rw [append_nil]

omit [DecidableEq N] in
lemma get_visit (data : W) (now : Time) (w : SvWalk N κ W) (name' : N) (entry : SeqNoEntry)
    (hash : κ) (boot : ℕ) :
    get (visit o data now w name' entry).sync.state hash boot
      = if hash = o.tlvStr name' ∧ boot = entry.bootstrapTime then
          max (get w.sync.state hash boot) entry.seqNo
        else get w.sync.state hash boot := by
  rw [visit]
  dsimp only
  by_cases hnewer : get w.sync.state (o.tlvStr name') entry.bootstrapTime < entry.seqNo
  · rw [if_pos hnewer, get_set]
    refine if_ctx_congr Iff.rfl (fun h => ?_) fun _ => rfl
    rw [h.1, h.2, Nat.max_eq_right hnewer.le]
  · rw [if_neg hnewer]
    split_ifs with h
    · rw [h.1, h.2, Nat.max_eq_left (not_lt.mp hnewer)]
    · rfl

/-- What is read for the name and the boot time is joined, and nothing else is. -/
lemma joins_visit (hinj : Injective o.tlvStr) (data : W) (now : Time) (w : SvWalk N κ W)
    (name' : N) (entry : SeqNoEntry) :
    Joins o name boot w.sync.state (visit o data now w name' entry).sync.state
      (news o w.sync.state name' entry) (seqNos name boot [(name', entry)]) := by
  by_cases hkey : name' = name ∧ entry.bootstrapTime = boot
  · obtain ⟨rfl, rfl⟩ := hkey
    have hseq : seqNos name' entry.bootstrapTime [(name', entry)] = [entry.seqNo] := by
      simp [seqNos]
    have hget := get_visit (o := o) data now w name' entry (o.tlvStr name') entry.bootstrapTime
    rw [if_pos ⟨rfl, rfl⟩] at hget
    refine ⟨by rw [hget, hseq]; rfl, ?_⟩
    rw [hget, news]
    split_ifs with hnewer
    · rw [Nat.max_eq_right hnewer.le]
      simpa [ranges] using covers_singleton hnewer
    · exact (Nat.max_eq_left (not_lt.mp hnewer)).symm
  · have hseq : seqNos name boot [(name', entry)] = [] := by
      simp [seqNos, hkey]
    have hnone : ranges name boot (news o w.sync.state name' entry) = [] := by
      rw [news]
      split_ifs
      · simp [ranges, hkey]
      · rfl
    have hget := get_visit (o := o) data now w name' entry (o.tlvStr name) boot
    rw [if_neg fun h => hkey ⟨(hinj h.1).symm, h.2.symm⟩] at hget
    exact ⟨by rw [hget, hseq]; rfl, by rw [hget, hnone]; rfl⟩

variable (name boot) in
/-- What comes before a boot time in the far future is joined. -/
lemma joins_walk (hinj : Injective o.tlvStr) (data : W) (now : Time)
    (walked : List (N × SeqNoEntry)) (w : SvWalk N κ W) :
    ∃ updates, (walk o data now w walked).1.updates = w.updates ++ updates ∧
      Joins o name boot w.sync.state (walk o data now w walked).1.sync.state updates
        (seqNos name boot (walked.takeWhile fun e => !farFuture now e.2.bootstrapTime)) := by
  induction walked generalizing w with
  | nil => exact ⟨[], (append_nil _).symm, .refl _⟩
  | cons e walked ih =>
    obtain ⟨name', entry⟩ := e
    rw [walk, takeWhile_cons]
    by_cases hfar : farFuture now entry.bootstrapTime = true
    · rw [if_pos hfar, if_neg (by simp [hfar])]
      exact ⟨[], (append_nil _).symm, .refl _⟩
    · rw [if_neg hfar, if_pos (by simp [hfar]), seqNos_cons]
      obtain ⟨updates, hupdates, hjoins⟩ := ih (visit o data now w name' entry)
      refine ⟨news o w.sync.state name' entry ++ updates, ?_,
        (joins_visit hinj data now w name' entry).trans hjoins⟩
      rw [hupdates, updates_visit, append_assoc]

/-- Whether the instance ends up steady or suppressed, its state and its updates are those of the
walk. -/
lemma joins_onReceiveStateVector (hinj : Injective o.tlvStr) (s : SvSync κ W)
    (args : RecvSv N W) (now : Time) :
    Joins o name boot s.state (s.onReceiveStateVector o args now).1.state
      (s.onReceiveStateVector o args now).2
      (seqNos name boot
        ((walkOrder args.sv).takeWhile fun e => !farFuture now e.2.bootstrapTime)) := by
  obtain ⟨updates, hupdates, hjoins⟩ :=
    joins_walk name boot hinj args.data now (walkOrder args.sv) ⟨s, false, true, ∅, []⟩
  rw [nil_append] at hupdates
  rw [← hupdates] at hjoins
  rw [onReceiveStateVector]
  dsimp only
  split_ifs <;> exact hjoins

end SvSync

/-- A state vector without boot times in the far future, or another event that is not local. -/
def SvSyncEvent.Near {N W : Type*} : SvSyncEvent N W → Prop
  | .receive args now =>
    ∀ node ∈ args.sv, ∀ entry ∈ node.seqNoEntries, farFuture now entry.bootstrapTime = false
  | .timerExpired | .sendSyncInterest => True
  | .setSeqNo _ _ | .incrSeqNo _ => False

/-- A sequence number of a name and a boot time is in one of the received state vectors. -/
def Received {N W : Type*} (es : List (SvSyncEvent N W)) (name : N) (boot seq : ℕ) : Prop :=
  ∃ args now, .receive args now ∈ es ∧
    ∃ node ∈ args.sv, node.name = name ∧ ⟨boot, seq⟩ ∈ node.seqNoEntries

namespace SvSync

variable {N κ W : Type*} [DecidableEq N] [DecidableEq κ] {o : SvSyncOpts N κ} {name : N} {boot : ℕ}

/-- The sequence numbers of a name and a boot time in an event. -/
def eventSeqNos (name : N) (boot : ℕ) : SvSyncEvent N W → List ℕ
  | .receive args _ => seqNos name boot (walkOrder args.sv)
  | _ => []

lemma mem_flatMap_eventSeqNos {es : List (SvSyncEvent N W)} {seq : ℕ} :
    seq ∈ es.flatMap (eventSeqNos name boot) ↔ Received es name boot seq := by
  rw [mem_flatMap]
  constructor
  · rintro ⟨e, he, hseq⟩
    cases e with
    | receive args now => exact ⟨args, now, he, mem_seqNos_walkOrder.mp hseq⟩
    | timerExpired | sendSyncInterest | setSeqNo name' seqNo | incrSeqNo name' =>
      exact absurd hseq not_mem_nil
  · rintro ⟨args, now, he, hnode⟩
    exact ⟨.receive args now, he, mem_seqNos_walkOrder.mpr hnode⟩

lemma joins_handle (hinj : Injective o.tlvStr) (s : SvSync κ W) {e : SvSyncEvent N W}
    (he : e.Near) :
    Joins o name boot s.state (s.handle o e).1.state (s.handle o e).2
      (eventSeqNos name boot e) := by
  cases e with
  | receive args now =>
    have hnear : ∀ e ∈ walkOrder args.sv, (!farFuture now e.2.bootstrapTime) = true := by
      intro e he'
      obtain ⟨node, hnode, hin⟩ := mem_flatMap.mp he'
      obtain ⟨entry, hentry, rfl⟩ := mem_map.mp hin
      rw [he node hnode entry (mem_reverse.mp hentry), Bool.not_false]
    have hjoins : Joins o name boot _ _ _ _ := joins_onReceiveStateVector hinj s args now
    rwa [takeWhile_eq_self_iff.mpr hnear] at hjoins
  | timerExpired =>
    rw [handle, timerExpired]
    split_ifs <;> exact .refl _
  | sendSyncInterest =>
    rw [handle, sendSyncInterest]
    split_ifs <;> exact .refl _
  | setSeqNo name' seqNo => exact he.elim
  | incrSeqNo name' => exact he.elim

lemma joins_run (hinj : Injective o.tlvStr) (s : SvSync κ W)
    {es : List (SvSyncEvent N W)} (hes : ∀ e ∈ es, e.Near) :
    Joins o name boot s.state (Steps.run (fun s e => (handle o s e).1) s es).state
      (Steps.trace (handle o) s es) (es.flatMap (eventSeqNos name boot)) := by
  induction es generalizing s with
  | nil => exact .refl _
  | cons e es ih =>
    rw [Steps.run_cons, Steps.trace_cons, flatMap_cons]
    exact (joins_handle hinj s (hes e mem_cons_self)).trans
      (ih _ fun e' he' => hes e' (mem_cons_of_mem e he'))

/-- **Synchronisation is a join**: after any state vectors, in any order and with any repetition,
the value of every name and boot time is the greatest of the initial and the received ones, and the
updates cover, in order and without a gap, what is above the initial value. -/
theorem state_vectors_are_joined (hinj : Injective o.tlvStr) (s : SvSync κ W)
    {es : List (SvSyncEvent N W)} (hes : ∀ e ∈ es, e.Near) (name : N) (boot : ℕ) :
    let initial := get s.state (o.tlvStr name) boot
    let final := get (Steps.run (fun s e => (handle o s e).1) s es).state (o.tlvStr name) boot
    IsGreatest {v | v = initial ∨ Received es name boot v} final ∧
      Covers initial final (ranges name boot (Steps.trace (handle o) s es)) := by
  have h : Joins o name boot _ _ _ _ := joins_run hinj s hes
  refine ⟨?_, h.covers⟩
  rw [h.value]
  simp only [← mem_flatMap_eventSeqNos]
  exact isGreatest_foldl_max _ _

/-- A vector that is received twice, and one with a name and a boot time listed twice. -/
def repeatedVectors : List (SvSyncEvent Bool Unit) :=
  [.receive ⟨[⟨true, [⟨7, 3⟩]⟩], ()⟩ 0, .receive ⟨[⟨true, [⟨7, 3⟩]⟩], ()⟩ 1, .timerExpired,
    .receive ⟨[⟨true, [⟨7, 5⟩, ⟨7, 2⟩]⟩, ⟨false, [⟨7, 9⟩]⟩, ⟨true, [⟨7, 4⟩]⟩], ()⟩ 2]

theorem repeated_vectors_are_joined :
    (∀ e ∈ repeatedVectors, e.Near) ∧
      IsGreatest {v | v = 0 ∨ Received repeatedVectors true 7 v} 5 ∧
      Covers 0 5 [(1, 3), (4, 5)] := by
  have hnear : ∀ e ∈ repeatedVectors, e.Near := by
    simp [repeatedVectors, SvSyncEvent.Near, farFuture]
  exact ⟨hnear, state_vectors_are_joined (o := ⟨1, 200000000, false, id⟩) injective_id
    ⟨∅, ∅, false, ∅, ∅⟩ hnear true 7⟩

/-! ### Boot times in the far future -/

/-- The entry brings nothing new: it is not newer than what is known and merged, and on a passive
instance it is older or the wire is there already. -/
def Idle (o : SvSyncOpts N κ) (data : W) (s : SvSync κ W) (e : N × SeqNoEntry) : Prop :=
  let known := get s.state (o.tlvStr e.1) e.2.bootstrapTime
  e.2.seqNo ≤ known ∧ (o.passive = true → known ≤ e.2.seqNo →
      get? s.passiveWiresSv (o.tlvStr e.1) e.2.bootstrapTime = some data)
    ∧ (s.suppress = true → e.2.seqNo ≤ get s.merge (o.tlvStr e.1) e.2.bootstrapTime)

/-- All that an instance keeps, and the updates, are the same. -/
@[mk_iff]
structure Unchanged (r r' : SvSync κ W × List (SvSyncUpdate N)) : Prop where
  state : r'.1.state = r.1.state
  mtime : r'.1.mtime = r.1.mtime
  suppress : r'.1.suppress = r.1.suppress
  merge : r'.1.merge = r.1.merge
  wires : ∀ hash boot, get? r'.1.passiveWiresSv hash boot = get? r.1.passiveWiresSv hash boot
  updates : r'.2 = r.2

section

variable {r r' r'' : SvSync κ W × List (SvSyncUpdate N)} (h : Unchanged r r')

omit [DecidableEq N]

lemma unchanged_refl : Unchanged r r := ⟨rfl, rfl, rfl, rfl, fun _ _ => rfl, rfl⟩

include h

lemma Unchanged.iff_left : Unchanged r r'' ↔ Unchanged r' r'' := by
  simp only [unchanged_iff, h.state, h.mtime, h.suppress, h.merge, h.wires, h.updates]

lemma Unchanged.idle_iff {data : W} {e : N × SeqNoEntry} :
    Idle o data r'.1 e ↔ Idle o data r.1 e := by
  simp only [Idle, h.state, h.suppress, h.merge, h.wires]

end

/-- What a walk does not take back. -/
structure Grows (data : W) (w w' : SvWalk N κ W) : Prop where
  updates : w.updates.length ≤ w'.updates.length
  merge : ∀ hash boot, get w.sync.merge hash boot ≤ get w'.sync.merge hash boot
  wires : ∀ hash boot, get? w.sync.passiveWiresSv hash boot = some data →
    get? w'.sync.passiveWiresSv hash boot = some data

variable {data : W} (now : Time) {w : SvWalk N κ W} {e : N × SeqNoEntry}

omit [DecidableEq N]

lemma grows_walk {walked : List (N × SeqNoEntry)} :
    Grows data w (walk o data now w walked).1 := by
  induction walked generalizing w with
  | nil => exact ⟨le_rfl, fun _ _ => le_rfl, fun _ _ h => h⟩
  | cons e walked ih =>
    rw [walk]
    split_ifs
    · exact ⟨le_rfl, fun _ _ => le_rfl, fun _ _ h => h⟩
    · obtain ⟨hupdates, hmerge, hwires⟩ := ih (w := visit o data now w e.1 e.2)
      refine ⟨le_trans ?_ hupdates, fun hash boot => le_trans ?_ (hmerge hash boot),
        fun hash boot h => hwires hash boot ?_⟩
      · simp [updates_visit]
      · rw [visit]
        dsimp only
        split_ifs with hraise
        · rw [get_set]
          split_ifs with hkey
          · rw [hkey.1, hkey.2]
            exact hraise.2.le
          · exact le_rfl
        · exact le_rfl
      · rw [visit]
        dsimp only
        split_ifs
        · rw [get?_set, h, ite_self]
        · exact h

lemma visit_of_idle (h : Idle o data w.sync e) :
    Unchanged (w.sync, w.updates)
      ((visit o data now w e.1 e.2).sync, (visit o data now w e.1 e.2).updates) := by
  obtain ⟨hknown, hpassive, hmerge⟩ := h
  have hold : ¬(w.sync.suppress = true ∧ get w.sync.merge (o.tlvStr e.1) e.2.bootstrapTime
      < e.2.seqNo) := fun h => not_lt.mpr (hmerge h.1) h.2
  simp only [visit, if_neg (not_lt.mpr hknown), if_neg hold]
  refine ⟨rfl, rfl, rfl, rfl, fun hash boot => ?_, rfl⟩
  dsimp only
  split_ifs with hwire
  · rw [get?_set]
    split_ifs with hkey
    · rw [hkey.1, hkey.2, hpassive hwire.1 hwire.2]
    · rfl
  · rfl

/-- What an entry brings shows at the end of the walk. -/
lemma idle_of_grows {w' : SvWalk N κ W} (hgrows : Grows data (visit o data now w e.1 e.2) w')
    (h : Unchanged (w.sync, w.updates) (w'.sync, w'.updates)) : Idle o data w.sync e := by
  refine ⟨not_lt.mp fun hnewer => ?_, fun hpassive hle => ?_, fun hsuppress =>
    not_lt.mp fun hraise => ?_⟩
  · have hlength := hgrows.updates
    rw [updates_visit, show w'.updates = w.updates from h.updates, news, if_pos hnewer] at hlength
    rw [length_append, length_singleton] at hlength
    omega
  · refine (h.wires _ _).symm.trans (hgrows.wires _ _ ?_)
    simp only [visit, if_pos (And.intro hpassive hle), get?_set, and_self, if_true]
  · have hmerge := hgrows.merge (o.tlvStr e.1) e.2.bootstrapTime
    simp only [show w'.sync.merge = w.sync.merge from h.merge, visit,
      if_pos (And.intro hsuppress hraise), get_set, and_self, if_true] at hmerge
    omega

/-- A walk ends before an entry of the far future, and changes nothing exactly if no entry up to
there brings anything new. -/
lemma walk_unchanged_iff (walked : List (N × SeqNoEntry)) :
    let r := walk o data now w walked
    (r.2 = walked.all fun e => !farFuture now e.2.bootstrapTime)
      ∧ (Unchanged (w.sync, w.updates) (r.1.sync, r.1.updates) ↔ ∀ e ∈
        walked.takeWhile fun e => !farFuture now e.2.bootstrapTime, Idle o data w.sync e) := by
  induction walked generalizing w with
  | nil => exact ⟨rfl, iff_of_true unchanged_refl (by simp)⟩
  | cons e walked ih =>
    rw [walk, takeWhile_cons, all_cons]
    by_cases hfar : farFuture now e.2.bootstrapTime = true
    · simpa [hfar] using unchanged_refl
    · simp only [hfar, Bool.not_false, if_true, forall_mem_cons, Bool.true_and]
      obtain ⟨hended, hiff⟩ := ih (w := visit o data now w e.1 e.2)
      refine ⟨hended, fun h => ?_, fun ⟨hidle, hrest⟩ => ?_⟩
      · have hidle := idle_of_grows now (grows_walk now) h
        have hsame := visit_of_idle now hidle
        simp only [← hsame.idle_iff]
        exact ⟨hsame.idle_iff.mpr hidle, hiff.mp (hsame.iff_left.mp h)⟩
      · have hsame := visit_of_idle now hidle
        simp only [← hsame.idle_iff] at hrest
        exact hsame.iff_left.mpr (hiff.mpr hrest)

/-- **A vector with a boot time in the far future is ignored** exactly if no entry that is walked
before it brings anything new; it may be the first one. -/
theorem far_future_vector_ignored (o : SvSyncOpts N κ) (s : SvSync κ W) (args : RecvSv N W)
    (now : Time) (hfar : ∃ node ∈ args.sv, ∃ entry ∈ node.seqNoEntries,
      farFuture now entry.bootstrapTime = true) :
    Unchanged (s, []) (s.onReceiveStateVector o args now)
      ↔ ∀ e ∈ (walkOrder args.sv).takeWhile fun e => !farFuture now e.2.bootstrapTime,
        Idle o args.data s e := by
  obtain ⟨node, hnode, entry, hentry, hfar⟩ := hfar
  have hended : (walk o args.data now ⟨s, false, true, ∅, []⟩ (walkOrder args.sv)).2 = false := by
    rw [(walk_unchanged_iff now _).1, all_eq_false]
    refine ⟨(node.name, entry), mem_flatMap.mpr ⟨node, hnode, ?_⟩, by simp [hfar]⟩
    exact mem_map_of_mem (mem_reverse.mpr hentry)
  rw [← (walk_unchanged_iff now (w := ⟨s, false, true, ∅, []⟩) _).2, onReceiveStateVector]
  simp only [hended, Bool.not_false, if_true]

theorem far_future_vector_ignored_first :
    let s : SvSync Bool Unit := ⟨∅, ∅, false, ∅, ∅⟩
    Unchanged (s, []) (s.onReceiveStateVector ⟨1, 200000000, false, id⟩
      ⟨[⟨true, [⟨7, 3⟩, ⟨90000, 1⟩]⟩], ()⟩ 0) :=
  (far_future_vector_ignored _ _ _ 0 (by decide)).mpr (by simp [walkOrder, farFuture])

/-- The entry of the far future comes after another one in the walk, which is taken over and
delivered. -/
theorem far_future_vector_taken :
    let r := (⟨∅, ∅, false, ∅, ∅⟩ : SvSync Bool Unit).onReceiveStateVector
      ⟨1, 200000000, false, id⟩ ⟨[⟨true, [⟨90000, 1⟩, ⟨7, 3⟩]⟩], ()⟩ 0
    farFuture 0 90000 = true ∧ get r.1.state true 7 = 3 ∧ r.2 = [⟨true, 7, 3, 1⟩] := by
  decide +kernel

end SvSync

end Mars.Sync
