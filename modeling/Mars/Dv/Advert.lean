import Mars.Basic
import Mars.Lib.Steps
import Mars.Sync.SvMap
import Mathlib.Data.Prod.Lex

/-!
Advertisements of neighbours: versions are announced in state vectors, and fetched.

* `AdvertModule.step`: state vectors, the timers that start fetches, the ends of fetches, the
  handlers of fetched data, and the removal of dead neighbours, in any order;
* `versions`, `stores`: the versions that a neighbour had, and for each advertisement that was
  stored, the version it was fetched for and the version at that time;
* `Forward`: versions do not go back, and what is stored is of the version at that time;
* `advertisements_never_go_back`: every point of a run is so iff no state vector has an older boot
  time with a higher sequence number, and no data of another boot time is handled.
-/

namespace Mars.Dv

open List AList Steps

open Sync (StateVectorEntry SeqNoEntry)

/-! ### The module -/

/-- `NeighborState`, with its history. -/
structure NeighborState (N A : Type*) where
  name : N
  advertBoot : ℕ := 0
  advertSeq : ℕ := 0
  advert : Option A := none
  lastSeen : Time
  faceId : ℕ := 0
  isFaceActive : Bool := false
  /-- The versions so far, the newest last. -/
  versions : List (ℕ × ℕ) := [(0, 0)]
  /-- For each stored advertisement, what it was fetched for and the version at that time. -/
  stores : List ((ℕ × ℕ) × (ℕ × ℕ)) := []

/-- What a fetch was started for. -/
structure AdvertFetch (N : Type*) where
  name : N
  boot : ℕ
  seq : ℕ

/-- The neighbours, and the fetches that wait for a timer, that are under way, and whose data is to
be handled. -/
structure AdvertModule (N D A : Type*) where
  neighbors : FinMap ℕ (NeighborState N A)
  waiting : List (AdvertFetch N)
  consuming : List (AdvertFetch N)
  fetched : List (AdvertFetch N × D)

/-- What may happen next. -/
inductive AdvertEvent (N D : Type*) where
  | stateVector (sv : List (StateVectorEntry (Option N))) (faceId : ℕ) (active : Bool) (now : Time)
  | dataFetch (k : ℕ)
  | failed (k : ℕ)
  | consumed (k : ℕ) (data : D)
  | dataHandler (k : ℕ)
  | checkDead (now : Time)

/-- `RecvPing`, and whether the face changed. -/
def NeighborState.recvPing {N A : Type*} (ns : NeighborState N A) (faceId : ℕ) (active : Bool)
    (now : Time) : NeighborState N A × Bool :=
  if ns.isFaceActive && !active then (ns, false)
  else if ns.faceId ≠ faceId then
    ({ ns with
        lastSeen := now
        isFaceActive := active
        faceId }, true)
  else ({ ns with lastSeen := now }, false)

/-- The version is set. -/
def NeighborState.setVersion {N A : Type*} (ns : NeighborState N A) (entry : SeqNoEntry) :
    NeighborState N A :=
  { ns with
    advertBoot := entry.bootstrapTime
    advertSeq := entry.seqNo
    versions := ns.versions ++ [(entry.bootstrapTime, entry.seqNo)] }

/-- Versions do not go back, and what is stored is of the version at that time. -/
def NeighborState.Forward {N A : Type*} (ns : NeighborState N A) : Prop :=
  ns.versions.Pairwise (fun v w => toLex v ≤ toLex w) ∧ ∀ store ∈ ns.stores, store.1 = store.2

namespace AdvertModule

variable {N D A : Type*} (hash : N → ℕ) (parse : D → Option A) (deadInterval : Time) {faceId k : ℕ}
  {active : Bool} {now : Time} {entry : SeqNoEntry}

/-- No neighbours yet. -/
def new : AdvertModule N D A := ⟨∅, [], [], []⟩

/-- The body of the loop in `onStateVector`; a ping is received in any case. -/
def onEntry (faceId : ℕ) (active : Bool) (now : Time) (st : AdvertModule N D A × Bool) (name : N)
    (entry : SeqNoEntry) : AdvertModule N D A × Bool :=
  let nh := hash name
  match st.1.neighbors.lookup nh with
  | some ns =>
    let (pinged, faceDirty) := ns.recvPing faceId active now
    if entry.bootstrapTime ≤ ns.advertBoot ∧ entry.seqNo ≤ ns.advertSeq then
      ({ st.1 with neighbors := st.1.neighbors.insert nh pinged }, st.2 || faceDirty)
    else
      ({ st.1 with
          neighbors := st.1.neighbors.insert nh (pinged.setVersion entry)
          waiting := st.1.waiting ++ [⟨name, entry.bootstrapTime, entry.seqNo⟩] },
        st.2 || faceDirty)
  | none =>
    let (pinged, faceDirty) :=
      ({ name, lastSeen := now } : NeighborState N A).recvPing faceId active now
    ({ st.1 with
        neighbors := st.1.neighbors.insert nh (pinged.setVersion entry)
        waiting := st.1.waiting ++ [⟨name, entry.bootstrapTime, entry.seqNo⟩] },
      st.2 || faceDirty)

/-- The loop in `onStateVector`, and whether the FIB needs an update: a node that has not one
sequence number ends the function. -/
def onStateVector (faceId : ℕ) (active : Bool) (now : Time) (st : AdvertModule N D A × Bool) :
    List (StateVectorEntry (Option N)) → AdvertModule N D A × Bool
  | [] => st
  | node :: sv =>
    match node.seqNoEntries with
    | [entry] =>
      match node.name with
      | none => onStateVector faceId active now st sv
      | some name =>
        onStateVector faceId active now (onEntry hash faceId active now st name entry) sv
    | _ => (st.1, false)

variable (s : AdvertModule N D A)

/-- `dataFetch`, from a timer: the fetch starts if its version is still the newest. -/
def dataFetch (k : ℕ) : AdvertModule N D A :=
  match s.waiting[k]? with
  | none => s
  | some fetch =>
    let s := { s with waiting := s.waiting.eraseIdx k }
    match s.neighbors.lookup (hash fetch.name) with
    | none => s
    | some ns =>
      if ns.advertBoot ≠ fetch.boot ∨ ns.advertSeq ≠ fetch.seq then s
      else { s with consuming := s.consuming ++ [fetch] }

/-- A fetch fails, and is tried again after a second. -/
def failed (k : ℕ) : AdvertModule N D A :=
  match s.consuming[k]? with
  | none => s
  | some fetch =>
    { s with
      consuming := s.consuming.eraseIdx k
      waiting := s.waiting ++ [fetch] }

/-- A fetch ends with data. -/
def consumed (k : ℕ) (data : D) : AdvertModule N D A :=
  match s.consuming[k]? with
  | none => s
  | some fetch =>
    { s with
      consuming := s.consuming.eraseIdx k
      fetched := s.fetched ++ [(fetch, data)] }

/-- `dataHandler`. -/
def dataHandler (k : ℕ) : AdvertModule N D A :=
  match s.fetched[k]? with
  | none => s
  | some (fetch, data) =>
    let s := { s with fetched := s.fetched.eraseIdx k }
    match s.neighbors.lookup (hash fetch.name) with
    | none => s
    | some ns =>
      if ns.advertSeq ≠ fetch.seq then s
      else
        match parse data with
        | none => s
        | some advert =>
          { s with
            neighbors := s.neighbors.insert (hash fetch.name)
              { ns with
                advert := some advert
                stores := ns.stores
                  ++ [((fetch.boot, fetch.seq), (ns.advertBoot, ns.advertSeq))] } }

/-- The neighbours that `checkDeadNeighbors` leaves. -/
def checkDead (now : Time) : AdvertModule N D A :=
  { s with
    neighbors := s.neighbors.keys.foldl (fun neighbors nh =>
      match neighbors.lookup nh with
      | none => neighbors
      | some ns => if deadInterval < now - ns.lastSeen then neighbors.erase nh else neighbors)
      s.neighbors }

/-- The module after an event. -/
def step : AdvertEvent N D → AdvertModule N D A
  | .stateVector sv faceId active now => (onStateVector hash faceId active now (s, false) sv).1
  | .dataFetch k => s.dataFetch hash k
  | .failed k => s.failed k
  | .consumed k data => s.consumed k data
  | .dataHandler k => s.dataHandler hash parse k
  | .checkDead now => s.checkDead deadInterval now

/-- So for every neighbour. -/
def Forward (s : AdvertModule N D A) : Prop :=
  ∀ nh ns, s.neighbors.lookup nh = some ns → ns.Forward

/-- An older boot time does not come with a higher sequence number. -/
def EntryTimely (name : N) (entry : SeqNoEntry) : Prop :=
  ∀ ns, s.neighbors.lookup (hash name) = some ns →
    ¬ (entry.bootstrapTime < ns.advertBoot ∧ ns.advertSeq < entry.seqNo)

/-- So for every entry of a state vector, in the state in which the loop gets to it. -/
def VectorTimely (faceId : ℕ) (active : Bool) (now : Time) (st : AdvertModule N D A × Bool) :
    List (StateVectorEntry (Option N)) → Prop
  | [] => True
  | node :: sv =>
    match node.seqNoEntries with
    | [entry] =>
      match node.name with
      | none => VectorTimely faceId active now st sv
      | some name => EntryTimely hash st.1 name entry
          ∧ VectorTimely faceId active now (onEntry hash faceId active now st name entry) sv
    | _ => True

/-- State vectors are timely, and data that is stored was fetched for the current boot time. -/
def Timely : AdvertEvent N D → Prop
  | .stateVector sv faceId active now => VectorTimely hash faceId active now (s, false) sv
  | .dataHandler k => ∀ fetch data, s.fetched[k]? = some (fetch, data) → ∀ ns,
      s.neighbors.lookup (hash fetch.name) = some ns → ns.advertSeq = fetch.seq →
      (parse data).isSome → ns.advertBoot = fetch.boot
  | _ => True

/-! ### State vectors -/

variable {hash parse deadInterval} {s : AdvertModule N D A}

/-- The newest of the versions is the current one. -/
def Current (s : AdvertModule N D A) : Prop :=
  ∀ nh ns, s.neighbors.lookup nh = some ns →
    ns.versions.getLast? = some (ns.advertBoot, ns.advertSeq)

/-- What an entry makes of the neighbour it is about. -/
inductive Answers (entry : SeqNoEntry) : Option (NeighborState N A) → NeighborState N A → Prop
  | pinged {ns ns'} (hversions : ns'.versions = ns.versions) (hstores : ns'.stores = ns.stores)
      (hboot : ns'.advertBoot = ns.advertBoot) (hseq : ns'.advertSeq = ns.advertSeq)
      (hold : entry.bootstrapTime ≤ ns.advertBoot ∧ entry.seqNo ≤ ns.advertSeq) :
      Answers entry (some ns) ns'
  | updated {ns ns'} (hversions : ns'.versions
        = ns.versions ++ [(entry.bootstrapTime, entry.seqNo)]) (hstores : ns'.stores = ns.stores)
      (hboot : ns'.advertBoot = entry.bootstrapTime) (hseq : ns'.advertSeq = entry.seqNo)
      (hnew : ¬ (entry.bootstrapTime ≤ ns.advertBoot ∧ entry.seqNo ≤ ns.advertSeq)) :
      Answers entry (some ns) ns'
  | added {ns'} (hversions : ns'.versions = [(0, 0), (entry.bootstrapTime, entry.seqNo)])
      (hstores : ns'.stores = []) (hboot : ns'.advertBoot = entry.bootstrapTime)
      (hseq : ns'.advertSeq = entry.seqNo) : Answers entry none ns'

lemma recvPing_keeps {ns : NeighborState N A} :
    let pinged := (ns.recvPing faceId active now).1
    pinged.versions = ns.versions ∧ pinged.stores = ns.stores
    ∧ pinged.advertBoot = ns.advertBoot ∧ pinged.advertSeq = ns.advertSeq := by
  rw [NeighborState.recvPing]
  split_ifs <;> exact ⟨rfl, rfl, rfl, rfl⟩

variable (hash) in
/-- An entry is about one neighbour. -/
lemma onEntry_spec (faceId : ℕ) (active : Bool) (now : Time) (st : AdvertModule N D A × Bool)
    (name : N) (entry : SeqNoEntry) :
    ∃ ns', Answers entry (st.1.neighbors.lookup (hash name)) ns'
      ∧ (onEntry hash faceId active now st name entry).1.neighbors
        = st.1.neighbors.insert (hash name) ns' := by
  rw [onEntry]
  cases hlookup : st.1.neighbors.lookup (hash name) with
  | some ns =>
    obtain ⟨hversions, hstores, hboot, hseq⟩ := recvPing_keeps
    dsimp only
    split_ifs with hold
    · exact ⟨_, .pinged hversions hstores hboot hseq hold, rfl⟩
    · refine ⟨(ns.recvPing faceId active now).1.setVersion entry,
        .updated ?_ hstores rfl rfl hold, rfl⟩
      exact congrArg (· ++ [(entry.bootstrapTime, entry.seqNo)]) hversions
  | none =>
    obtain ⟨hversions, hstores, -, -⟩ :=
      recvPing_keeps
    refine ⟨(NeighborState.recvPing { name, lastSeen := now } faceId active now).1.setVersion
      entry, .added ?_ hstores rfl rfl, rfl⟩
    exact congrArg (· ++ [(entry.bootstrapTime, entry.seqNo)]) hversions

lemma current_onEntry {st : AdvertModule N D A × Bool} (hcur : st.1.Current) {name : N} :
    (onEntry hash faceId active now st name entry).1.Current := by
  obtain ⟨ns', hanswers, hinsert⟩ := onEntry_spec hash faceId active now st name entry
  intro nh ns hns
  rw [hinsert, lookup_insert_eq] at hns
  split_ifs at hns
  · obtain rfl := Option.some.inj hns
    generalize hlookup : st.1.neighbors.lookup (hash name) = old at hanswers
    cases hanswers with
    | pinged hversions _ hboot hseq _ =>
      rw [hversions, hboot, hseq]
      exact hcur _ _ hlookup
    | updated hversions _ hboot hseq _ => rw [hversions, hboot, hseq, getLast?_concat]
    | added hversions _ hboot hseq =>
      rw [hversions, hboot, hseq]
      rfl
  · exact hcur nh ns hns

/-- A newer version at the end of a list of versions. -/
lemma pairwise_versions_iff {versions : List (ℕ × ℕ)} {last v : ℕ × ℕ}
    (hlast : versions.getLast? = some last)
    (hsorted : versions.Pairwise fun v w => toLex v ≤ toLex w) :
    ((versions ++ [v]).Pairwise fun v w => toLex v ≤ toLex w) ↔ toLex last ≤ toLex v := by
  obtain ⟨before, rfl⟩ := getLast?_eq_some_iff.mp hlast
  rw [pairwise_append]
  constructor
  · rintro ⟨-, -, h⟩
    exact h last (mem_append_right _ (mem_singleton.mpr rfl)) v (mem_singleton.mpr rfl)
  · intro hle
    refine ⟨hsorted, pairwise_singleton _ _, fun w hw v' hv' => ?_⟩
    rw [mem_singleton.mp hv']
    rcases mem_append.mp hw with hw | hw
    · have hbefore := (pairwise_append.mp hsorted).2.2 w hw last (mem_singleton.mpr rfl)
      exact hbefore.trans hle
    · rw [mem_singleton.mp hw]
      exact hle

/-- What is not skipped is newer unless the boot time is older. -/
lemma newer_iff {boot seq : ℕ} (hnew : ¬ (entry.bootstrapTime ≤ boot ∧ entry.seqNo ≤ seq)) :
    toLex (boot, seq) ≤ toLex (entry.bootstrapTime, entry.seqNo)
      ↔ ¬ (entry.bootstrapTime < boot ∧ seq < entry.seqNo) := by
  rw [Prod.Lex.toLex_le_toLex]
  dsimp only
  omega

lemma Answers.forward_iff {old : Option (NeighborState N A)} {ns' : NeighborState N A}
    (h : Answers entry old ns')
    (hcur : ∀ ns ∈ old, ns.versions.getLast? = some (ns.advertBoot, ns.advertSeq)) :
    ns'.Forward ↔ ∀ ns ∈ old, ns.Forward
      ∧ ¬ (entry.bootstrapTime < ns.advertBoot ∧ ns.advertSeq < entry.seqNo) := by
  cases h with
  | @pinged ns _ hversions hstores _ _ hold =>
    have hskip : ¬ (entry.bootstrapTime < ns.advertBoot ∧ ns.advertSeq < entry.seqNo) := by omega
    simp only [NeighborState.Forward, hversions, hstores, Option.mem_some_iff, forall_eq',
      and_iff_left hskip]
  | @updated ns _ hversions hstores _ _ hnew =>
    simp only [NeighborState.Forward, hversions, hstores, Option.mem_some_iff, forall_eq']
    constructor
    · rintro ⟨hsorted, hall⟩
      have hbefore := (pairwise_append.mp hsorted).1
      exact ⟨⟨hbefore, hall⟩,
        (newer_iff hnew).mp ((pairwise_versions_iff (hcur ns rfl) hbefore).mp hsorted)⟩
    · rintro ⟨⟨hbefore, hall⟩, htimely⟩
      exact ⟨(pairwise_versions_iff (hcur ns rfl) hbefore).mpr ((newer_iff hnew).mpr htimely), hall⟩
  | added hversions hstores =>
    have hle : toLex ((0, 0) : ℕ × ℕ) ≤ toLex (entry.bootstrapTime, entry.seqNo) := by
      rw [Prod.Lex.toLex_le_toLex]
      dsimp only
      omega
    simp [NeighborState.Forward, hversions, hstores, hle]

lemma forward_onEntry {st : AdvertModule N D A × Bool} (hcur : st.1.Current) {name : N} :
    (onEntry hash faceId active now st name entry).1.Forward
      ↔ st.1.Forward ∧ EntryTimely hash st.1 name entry := by
  obtain ⟨ns', hanswers, hinsert⟩ := onEntry_spec hash faceId active now st name entry
  have hiff := hanswers.forward_iff fun ns hns => hcur _ ns hns
  constructor
  · intro h
    have hns' := hiff.mp (h (hash name) ns' (by rw [hinsert, lookup_insert]))
    refine ⟨fun nh ns hns => ?_, fun ns hns => (hns' ns hns).2⟩
    by_cases hnh : nh = hash name
    · rw [hnh] at hns
      exact (hns' ns hns).1
    · exact h nh ns (by rw [hinsert, lookup_insert_ne hnh, hns])
  · rintro ⟨h, htimely⟩ nh ns hns
    rw [hinsert, lookup_insert_eq] at hns
    split_ifs at hns
    · obtain rfl := Option.some.inj hns
      exact hiff.mpr fun ns hns => ⟨h _ ns hns, htimely ns hns⟩
    · exact h nh ns hns

/-- The loop over a state vector keeps the newest version current, and keeps versions from going
back iff the vector is timely. -/
lemma onStateVector_spec {sv : List (StateVectorEntry (Option N))} :
    ∀ {st : AdvertModule N D A × Bool}, st.1.Current →
      (onStateVector hash faceId active now st sv).1.Current
      ∧ ((onStateVector hash faceId active now st sv).1.Forward
        ↔ st.1.Forward ∧ VectorTimely hash faceId active now st sv) := by
  induction sv with
  | nil => exact fun hcur => ⟨hcur, by simp [onStateVector, VectorTimely]⟩
  | cons node sv ih =>
    intro st hcur
    rw [onStateVector, VectorTimely]
    split
    · split
      · exact ih hcur
      · rename_i entry _ _ name _
        obtain ⟨hcur', hiff⟩ := ih (current_onEntry hcur)
        refine ⟨hcur', ?_⟩
        rw [hiff, forward_onEntry hcur, and_assoc]
    · exact ⟨hcur, by simp⟩

/-! ### The other events -/

/-- Neighbours with the same version and history, or fewer neighbours. -/
lemma Current.step_of_sub {s' : AdvertModule N D A} {timely : Prop} (hcur : s.Current)
    (htimely : timely)
    (h : ∀ nh ns, s'.neighbors.lookup nh = some ns → s.neighbors.lookup nh = some ns) :
    s'.Current ∧ (s.Forward → (timely ↔ s'.Forward)) :=
  ⟨fun nh ns hns => hcur nh ns (h nh ns hns),
    fun hfor => iff_of_true htimely fun nh ns hns => hfor nh ns (h nh ns hns)⟩

lemma neighbors_dataFetch (s : AdvertModule N D A) :
    (s.dataFetch hash k).neighbors = s.neighbors := by
  rw [dataFetch]
  cases s.waiting[k]? with
  | none => rfl
  | some fetch =>
    dsimp only
    cases s.neighbors.lookup (hash fetch.name) with
    | none => rfl
    | some ns =>
      dsimp only
      split_ifs <;> rfl

lemma neighbors_failed (s : AdvertModule N D A) : (s.failed k).neighbors = s.neighbors := by
  rw [failed]
  cases s.consuming[k]? <;> rfl

lemma neighbors_consumed (s : AdvertModule N D A) {data : D} :
    (s.consumed k data).neighbors = s.neighbors := by
  rw [consumed]
  cases s.consuming[k]? <;> rfl

lemma lookup_checkDead {nh : ℕ} {ns : NeighborState N A}
    (h : (s.checkDead deadInterval now).neighbors.lookup nh = some ns) :
    s.neighbors.lookup nh = some ns := by
  refine foldlRecOn (motive := fun neighbors : FinMap ℕ (NeighborState N A) =>
    neighbors.lookup nh = some ns → s.neighbors.lookup nh = some ns) s.neighbors.keys _ id
    (fun neighbors ih key _ hns => ih ?_) h
  cases hlookup : neighbors.lookup key with
  | none =>
    rw [hlookup] at hns
    exact hns
  | some old =>
    rw [hlookup] at hns
    dsimp only at hns
    split_ifs at hns
    · rw [lookup_erase_eq] at hns
      split_ifs at hns
      exact hns
    · exact hns

variable (hash parse) in
/-- Data is stored, or nothing changes. -/
lemma dataHandler_spec (s : AdvertModule N D A) :
    (s.dataHandler hash parse k).neighbors = s.neighbors
      ∧ (∀ fetch data, s.fetched[k]? = some (fetch, data) → ∀ ns,
        s.neighbors.lookup (hash fetch.name) = some ns → ns.advertSeq = fetch.seq →
          (parse data).isSome = false)
    ∨ ∃ fetch data ns advert, s.fetched[k]? = some (fetch, data)
      ∧ s.neighbors.lookup (hash fetch.name) = some ns ∧ ns.advertSeq = fetch.seq
      ∧ parse data = some advert
      ∧ (s.dataHandler hash parse k).neighbors = s.neighbors.insert (hash fetch.name)
        { ns with
          advert := some advert
          stores := ns.stores ++ [((fetch.boot, fetch.seq), (ns.advertBoot, ns.advertSeq))] } := by
  rw [dataHandler]
  cases hfetched : s.fetched[k]? with
  | none => exact .inl ⟨rfl, by simp⟩
  | some fd =>
    obtain ⟨fetch, data⟩ := fd
    dsimp only
    cases hlookup : s.neighbors.lookup (hash fetch.name) with
    | none =>
      refine .inl ⟨rfl, ?_⟩
      rintro _ _ ⟨⟩ ns hns
      rw [hlookup] at hns
      cases hns
    | some ns =>
      dsimp only
      split_ifs with hseq
      · refine .inl ⟨rfl, ?_⟩
        rintro _ _ ⟨⟩ ns' hns' hsame
        rw [hlookup] at hns'
        obtain rfl := Option.some.inj hns'
        exact absurd hsame hseq
      · cases hparse : parse data with
        | none =>
          refine .inl ⟨rfl, ?_⟩
          rintro _ _ ⟨⟩ _ _ _
          rw [hparse]
          rfl
        | some advert =>
          exact .inr ⟨fetch, data, ns, advert, rfl, hlookup, not_not.mp hseq, hparse, rfl⟩

lemma dataHandler_iff (hcur : s.Current) :
    (s.dataHandler hash parse k).Current
    ∧ (s.Forward →
      (Timely hash parse s (.dataHandler k) ↔ (s.dataHandler hash parse k).Forward)) := by
  rcases dataHandler_spec hash parse s with
    ⟨hsame, hnot⟩ | ⟨fetch, data, ns, advert, hfetched, hlookup, hseq, hparse, hinsert⟩
  · refine hcur.step_of_sub ?_ fun _ _ hns => hsame ▸ hns
    intro fetch data hfetched ns hlookup hseq hparse
    rw [hnot fetch data hfetched ns hlookup hseq] at hparse
    cases hparse
  · have htimely : Timely hash parse s (.dataHandler k) ↔ ns.advertBoot = fetch.boot := by
      constructor
      · intro h
        exact h fetch data hfetched ns hlookup hseq (by rw [hparse]; rfl)
      · intro h fetch' data' hfetched' ns' hlookup' _ _
        rw [hfetched] at hfetched'
        cases hfetched'
        rw [hlookup] at hlookup'
        cases hlookup'
        exact h
    constructor
    · intro nh ns' hns'
      rw [hinsert, lookup_insert_eq] at hns'
      split_ifs at hns'
      · obtain rfl := Option.some.inj hns'
        exact hcur _ ns hlookup
      · exact hcur nh ns' hns'
    · intro hfor
      rw [htimely]
      constructor
      · intro hboot nh ns' hns'
        rw [hinsert, lookup_insert_eq] at hns'
        split_ifs at hns'
        · obtain rfl := Option.some.inj hns'
          refine ⟨(hfor _ ns hlookup).1, fun store hstore => ?_⟩
          rcases mem_append.mp hstore with hstore | hstore
          · exact (hfor _ ns hlookup).2 store hstore
          · rw [mem_singleton.mp hstore, hboot, hseq]
        · exact hfor nh ns' hns'
      · intro h
        have hstores := (h (hash fetch.name) _ (by rw [hinsert, lookup_insert])).2
        have hpair := hstores _ (mem_append_right _ (mem_singleton.mpr rfl))
        exact (congrArg Prod.fst hpair).symm

/-- **A step keeps the newest version current, and keeps versions from going back iff it is
timely.** -/
lemma step_spec (hcur : s.Current) {event : AdvertEvent N D} :
    (s.step hash parse deadInterval event).Current
    ∧ (s.Forward →
      (Timely hash parse s event ↔ (s.step hash parse deadInterval event).Forward)) := by
  cases event with
  | stateVector sv faceId active now =>
    have hstart : ((s, false) : AdvertModule N D A × Bool).1.Current := hcur
    obtain ⟨hcur', hiff⟩ := onStateVector_spec hstart
    refine ⟨hcur', fun hfor => ?_⟩
    rw [step, hiff]
    exact (and_iff_right hfor).symm
  | dataFetch k =>
    exact hcur.step_of_sub trivial fun _ _ hns => neighbors_dataFetch s ▸ hns
  | failed k =>
    exact hcur.step_of_sub trivial fun _ _ hns => neighbors_failed s ▸ hns
  | consumed k data =>
    exact hcur.step_of_sub trivial fun _ _ hns => neighbors_consumed s ▸ hns
  | dataHandler k => exact dataHandler_iff hcur
  | checkDead now =>
    exact hcur.step_of_sub trivial fun _ _ => lookup_checkDead

/-- **Advertisements of a neighbour go back in time nowhere in a run iff every step is timely.** -/
theorem advertisements_never_go_back (hash : N → ℕ) (parse : D → Option A) (deadInterval : Time)
    (events : List (AdvertEvent N D)) :
    (∀ before, before <+: events → (run (step hash parse deadInterval) new before).Forward)
    ↔ Steps.Guarded (step hash parse deadInterval) (Timely hash parse) new events := by
  have hnew : (new : AdvertModule N D A).Current := fun nh ns hns => by simp [new] at hns
  have hcur : ∀ es, (run (step hash parse deadInterval) new es).Current := fun es =>
    run_invariant (I := Current) (fun _ event h => (step_spec h).1) hnew es
  refine guarded_iff_holds (P := Forward) (fun nh ns hns => by simp [new] at hns)
    (fun es event hfor => ?_)
  rw [run_concat]
  exact (step_spec (hcur es)).2 hfor

/-- A state vector of neighbour 4. -/
def versionOf (boot seq : ℕ) : AdvertEvent ℕ ℕ := .stateVector [⟨some 4, [⟨boot, seq⟩]⟩] 1 true 0

/-- An older boot time with a higher sequence number is taken, and data that was fetched for an
older boot time with the same sequence number is stored. -/
theorem older_advertisement_is_taken :
    ((run (step id some 0) (new : AdvertModule ℕ ℕ ℕ)
        [versionOf 10 1, versionOf 5 100]).neighbors.lookup 4).map
      (fun ns => (ns.versions, ns.advertBoot, ns.advertSeq))
      = some ([(0, 0), (10, 1), (5, 100)], 5, 100)
    ∧ ((run (step id some 0) (new : AdvertModule ℕ ℕ ℕ)
        [versionOf 5 3, .dataFetch 0, versionOf 10 3, .consumed 0 77,
          .dataHandler 0]).neighbors.lookup 4).map
      (fun ns => (ns.advert, ns.stores, ns.advertBoot, ns.advertSeq))
      = some (some 77, [((5, 3), (10, 3))], 10, 3) := by
  decide +kernel

end AdvertModule

end Mars.Dv
