import Mars.Sync.SvSync

/-!
Delivery on top of state vectors: each publication that is announced is fetched, and handed to the
application in the order of the sequence numbers.

* `SvsALO.consumeCheck`, `SvsALO.onConsumed`: fetches are queued, and their data is delivered;
* `SvsALO.onUpdate`, `SvsALO.handleSnap`: the snapshot strategies;
* `SvsALO.step`: state vectors, updates, the ends of fetches, retries, snapshots, subscriptions and
  own publications, in any order;
* `Rechecks`: what a check for new publications may change; `rechecks_consumeCheck`;
* `get_new`: the initial state.
-/

namespace Mars.Sync

open SvMapVal List SvMap KeyedList

/-! ### The instance -/

/-- `svsDataState`. -/
structure SvsDataState (P : Type*) where
  known : ℕ := 0
  latest : ℕ := 0
  pending : ℕ := 0
  pendingPubs : FinMap ℕ P := ∅
  snapBlock : ℤ := 0

instance {P : Type*} : Inhabited (SvsDataState P) := ⟨{}⟩

/-- The state in which everything up to `seq` is fetched. -/
def SvsDataState.upTo {P : Type*} (seq : ℕ) : SvsDataState P where
  known := seq
  latest := seq
  pending := seq

/-- `SvsPub`; a content may be `nil`. -/
structure SvsPub (N C S : Type*) where
  publisher : N
  dataName : N
  content : Option C
  bootTime : ℕ
  seqNum : ℕ
  isSnapshot : Bool := false
  subcribers : List S := []

/-- `SimplePsSub`. -/
structure SimplePsSub (N S : Type*) where
  pfx : N
  callback : S

/-- The snapshot strategies: `SnapshotNull`, and `SnapshotNodeLatest` with its threshold. -/
inductive Snapshot where
  | null
  | nodeLatest (threshold : ℕ)
  deriving DecidableEq

/-- `SvsAloOpts`, with the operations of names; a name is read back from its key.  So `N` is the
type of the names whose components have at most 252 bytes: longer ones are not read back
(`nameFromTlvStr_iff`). -/
structure SvsAloOpts (N κ : Type*) where
  name : N
  svs : SvSyncOpts N κ
  snapshot : Snapshot
  maxPipelineSize : ℕ
  nameFromTlvStr : κ → Option N
  isPrefix : N → N → Bool
  nameFromTlvStr_tlvStr : ∀ n, nameFromTlvStr (svs.tlvStr n) = some n

/-- The pipeline size, `10` by default. -/
def SvsAloOpts.pipelineSize {N κ : Type*} (o : SvsAloOpts N κ) : ℕ :=
  if o.maxPipelineSize = 0 then 10 else o.maxPipelineSize

lemma SvsAloOpts.tlvStr_injective {N κ : Type*} (o : SvsAloOpts N κ) :
    Function.Injective o.svs.tlvStr := by
  intro n n' h
  have hname := o.nameFromTlvStr_tlvStr n
  rw [h, o.nameFromTlvStr_tlvStr] at hname
  exact (Option.some.inj hname).symm

/-- What `consumeObject` fetches. -/
structure AloFetch (N : Type*) where
  node : N
  boot : ℕ
  seq : ℕ
  deriving DecidableEq

/-- The object of a fetch that succeeded. -/
structure Fetched (N C : Type*) where
  name : N
  content : Option C
  version : ℕ

/-- The errors that are handed to the application. -/
inductive AloError (N E : Type*) where
  | fetch (publisher : N) (boot : ℕ) (err : E)
  | blockedSnapshot
  | snapshot (publisher : N) (boot : ℕ) (err : E)
  | oldSnapshot (publisher : N) (boot : ℕ)

/-- `SvsALO`: the updates of `svs` that wait to be handled, the fetches and retries under way, and
what was put on the pipes. -/
structure SvsALO (N κ W C S E : Type*) where
  svs : SvSync κ W
  updates : List (SvSyncUpdate N) := []
  state : SvMap κ (SvsDataState (SvsPub N C S))
  nodePs : FinMap κ (SimplePsSub N S) := ∅
  fetching : List (AloFetch N) := []
  retrying : List (AloFetch N) := []
  snapFetching : List (N × ℕ) := []
  snapFailed : List ((N × ℕ) × E) := []
  outpipe : List (SvsPub N C S) := []
  errpipe : List (AloError N E) := []
  /-- The objects that the fetches gave. -/
  results : List (AloFetch N × Fetched N C) := []

/-- What may happen next; `congested` says what the client answers to `IsCongested` for a publisher,
a boot time and a number, and `order` in which order a loop over the state goes. -/
inductive AloEvent (N κ W C S E : Type*) where
  | receive (args : RecvSv N W) (now : Time)
  | timerExpired
  | sendSyncInterest
  | update (congested : N → ℕ → ℕ → Bool)
  | fetched (k : ℕ) (status : Except E (Fetched N C)) (congested : N → ℕ → ℕ → Bool)
  | retry (k : ℕ)
  | snapFetched (k : ℕ) (status : Except E (Fetched N C)) (order : List κ)
      (congested : N → ℕ → ℕ → Bool)
  | snapRetry (k : ℕ) (order : List κ) (congested : N → ℕ → ℕ → Bool)
  | subscribe (pfx : N) (callback : S) (order : List κ) (congested : N → ℕ → ℕ → Bool)
  | unsubscribe (pfx : N)
  | publish (produced : Bool)

/-- The difference of two `uint64`. -/
def usub (a b : ℕ) : ℕ := (a + 2 ^ 64 - b) % 2 ^ 64

/-! ### The strategy of the latest snapshot -/

section Latest

variable {P : Type*}

/-- An older boot is blocked for good. -/
def blockOld (old : SvMapVal (SvsDataState P)) : SvMapVal (SvsDataState P) :=
  if old.value.snapBlock = -1 then old
  else
    { old with
      value :=
        { old.value with
          snapBlock := -1
          known := old.value.latest
          pending := old.value.latest } }

/-- `SnapshotNodeLatest.onUpdate` over the entries of a node, with the boot time whose snapshot is
fetched. -/
def latestVals (threshold : ℕ) :
    List (SvMapVal (SvsDataState P)) → List (SvMapVal (SvsDataState P)) × Option ℕ
  | [] => ([], none)
  | [last] =>
    if last.value.snapBlock = 0 ∧
        (threshold * 2 % 2 ^ 64 ≤ usub last.value.latest last.value.pending ∨
          last.value.known = 0) then
      ([⟨last.boot, { last.value with snapBlock := 1 }⟩], some last.boot)
    else ([last], none)
  | old :: next :: vals =>
    let rest := latestVals threshold (next :: vals)
    (blockOld old :: rest.1, rest.2)

lemma boot_blockOld {old : SvMapVal (SvsDataState P)} : (blockOld old).boot = old.boot := by
  rw [blockOld]
  split_ifs <;> rfl

lemma boots_latestVals {threshold : ℕ} {vals : List (SvMapVal (SvsDataState P))} :
    (latestVals threshold vals).1.map boot = vals.map boot := by
  induction vals with
  | nil => rfl
  | cons v vals ih =>
    cases vals with
    | nil =>
      rw [latestVals]
      split_ifs <;> rfl
    | cons next vals =>
      rw [latestVals]
      dsimp only
      rw [map_cons, ih, boot_blockOld]
      rfl

end Latest

namespace SvsALO

variable {N κ W C S E : Type*} [DecidableEq κ] (o : SvsAloOpts N κ)

variable (congested : N → ℕ → ℕ → Bool) (s : SvsALO N κ W C S E) (node : N)

/-- `SimplePs.Subs`. -/
def subs : List S :=
  (s.nodePs.entries.filter fun sub => o.isPrefix sub.2.pfx node).map fun sub => sub.2.callback

/-- The entry of a publisher and a boot time. -/
def entry (boot : ℕ) : SvsDataState (SvsPub N C S) :=
  get s.state (o.svs.tlvStr node) boot

/-- The entry of a publisher and a boot time is replaced. -/
def setEntry (boot : ℕ) (value : SvsDataState (SvsPub N C S)) : SvsALO N κ W C S E :=
  { s with state := set s.state (o.svs.tlvStr node) boot value }

/-- `Snapshot.onUpdate`. -/
def onUpdate : SvsALO N κ W C S E :=
  match o.snapshot with
  | .null => s
  | .nodeLatest threshold =>
    match s.state.lookup (o.svs.tlvStr node) with
    | none => s
    | some entries =>
      let r := latestVals threshold entries.vals
      { s with
        state := s.state.insert (o.svs.tlvStr node)
          ⟨r.1, by
            rw [← pairwise_map, boots_latestVals, pairwise_map]
            exact entries.sorted⟩
        snapFetching := s.snapFetching ++ r.2.toList.map fun boot => (node, boot) }

/-- The loop that queues fetches for a boot time, up to `n` of them, with the number of pending
fetches, the last number that is queued, and whether the check is over. -/
def queueFetches (congested : ℕ → Bool) : ℕ → ℕ → ℕ → ℕ × ℕ × Bool
  | 0, total, pending => (total, pending, false)
  | n + 1, total, pending =>
    if o.pipelineSize < total then (total, pending, true)
    else if 2 ≤ total ∧ congested pending then (total, pending, true)
    else queueFetches congested n ((total + 1) % 2 ^ 64) (pending + 1)

/-- The loop of `consumeCheck` over the entries of a node. -/
def consumeEntries (congested : ℕ → ℕ → Bool) (node : N) :
    List (SvMapVal (SvsDataState (SvsPub N C S))) → ℕ → SvsALO N κ W C S E → SvsALO N κ W C S E
  | [], _, s => s
  | e :: entries, total, s =>
    let total := (total + usub e.value.pending e.value.known) % 2 ^ 64
    if e.value.snapBlock ≠ 0 then consumeEntries congested node entries total s
    else
      let r := queueFetches o (congested e.boot) (e.value.latest - e.value.pending) total
        e.value.pending
      let fetches := (range' (e.value.pending + 1) (r.2.1 - e.value.pending)).map
        fun seq => ⟨node, e.boot, seq⟩
      let s' : SvsALO N κ W C S E :=
        { s.setEntry o node e.boot { e.value with pending := r.2.1 } with
          fetching := s.fetching ++ fetches }
      if r.2.2 then s' else consumeEntries congested node entries r.1 s'

/-- `consumeCheck`. -/
def consumeCheck : SvsALO N κ W C S E :=
  if (s.subs o node).isEmpty then s
  else
    let s := s.onUpdate o node
    match s.state.lookup (o.svs.tlvStr node) with
    | none => s
    | some entries => consumeEntries o (congested node) node entries.vals 0 s

/-- The names of the state, in some order. -/
def names (order : List κ) : List N :=
  (rangeOrder s.state.keys order).filterMap o.nameFromTlvStr

/-- Checks for one name after the other. -/
def consumeEach (nodes : List N) : SvsALO N κ W C S E := nodes.foldl (consumeCheck o congested) s

/-- `onSvsUpdate`. -/
def onSvsUpdate (update : SvSyncUpdate N) : SvsALO N κ W C S E :=
  consumeCheck o congested (s.setEntry o update.name update.boot
    { s.entry o update.name update.boot with latest := update.high }) update.name

/-- The loop that delivers what is next, at most `n` publications. -/
def deliver {P : Type*} : ℕ → SvsDataState P → SvsDataState P × List P
  | 0, entry => (entry, [])
  | n + 1, entry =>
    match entry.pendingPubs.lookup (entry.known + 1) with
    | none => (entry, [])
    | some pub =>
      let r := deliver n { entry with
        known := entry.known + 1
        pendingPubs := entry.pendingPubs.erase (entry.known + 1) }
      (r.1, pub :: r.2)

/-- The callback of `consumeObject`, before the check that ends it. -/
def onConsumed (f : AloFetch N) (status : Except E (Fetched N C)) : SvsALO N κ W C S E :=
  let entry := s.entry o f.node f.boot
  if f.seq ≤ entry.known then s
  else
    let subscribers := s.subs o f.node
    if entry.snapBlock ≠ 0 ∨ subscribers.isEmpty then
      s.setEntry o f.node f.boot { entry with pending := min entry.pending (f.seq - 1) }
    else
      match status with
      | .error err =>
        { s with
          errpipe := s.errpipe ++ [.fetch f.node f.boot err]
          retrying := s.retrying ++ [f] }
      | .ok data =>
        let pub : SvsPub N C S :=
          { publisher := f.node
            dataName := data.name
            content := data.content
            bootTime := f.boot
            seqNum := f.seq }
        let pubs := entry.pendingPubs.insert f.seq pub
        let r := deliver pubs.size { entry with pendingPubs := pubs }
        { s.setEntry o f.node f.boot r.1 with
          outpipe := s.outpipe ++ r.2.map fun pub => { pub with subcribers := subscribers } }

/-- `SnapshotNodeLatest.handleSnap` with `snapRecvCallback`, before the checks that end it. -/
def handleSnap (boot : ℕ) (status : Except E (Fetched N C)) : SvsALO N κ W C S E :=
  let entry := s.entry o node boot
  if entry.snapBlock ≠ 1 then { s with errpipe := s.errpipe ++ [.blockedSnapshot] }
  else
    match status with
    | .error err =>
      { s.setEntry o node boot { entry with snapBlock := 0 } with
        errpipe := s.errpipe ++ [.snapshot node boot err] }
    | .ok snap =>
      if snap.version ≤ entry.known then
        { s.setEntry o node boot { entry with snapBlock := 0 } with
          errpipe := s.errpipe ++ [.oldSnapshot node boot] }
      else
        let pub : SvsPub N C S :=
          { publisher := node
            dataName := snap.name
            content := snap.content
            bootTime := boot
            seqNum := snap.version
            isSnapshot := true
            subcribers := s.subs o node }
        { s.setEntry o node boot
            { entry with
              snapBlock := 0
              known := snap.version
              pending := max entry.pending snap.version } with
          outpipe := if snap.content.isSome then s.outpipe ++ [pub] else s.outpipe }

/-- `produceObject`, when the client stores the object or not. -/
def produceObject (produced : Bool) : SvsALO N κ W C S E :=
  let seq := (get s.svs.state (o.svs.tlvStr o.name) o.svs.bootTime + 1) % 2 ^ 64
  if produced then
    { s.setEntry o o.name o.svs.bootTime (.upTo seq) with
      svs := ((s.svs.incrSeqNo o.svs o.name).toOption.map Prod.fst).getD s.svs }
  else s

/-- The instance after an event. -/
def step : AloEvent N κ W C S E → SvsALO N κ W C S E
  | .receive args now =>
    let r := s.svs.onReceiveStateVector o.svs args now
    { s with
      svs := r.1
      updates := s.updates ++ r.2 }
  | .timerExpired => { s with svs := s.svs.timerExpired }
  | .sendSyncInterest => { s with svs := s.svs.sendSyncInterest o.svs }
  | .update congested =>
    match s.updates with
    | [] => s
    | update :: updates => onSvsUpdate o congested { s with updates } update
  | .fetched k status congested =>
    match s.fetching[k]? with
    | none => s
    | some f =>
      let s : SvsALO N κ W C S E :=
        { s with
          fetching := s.fetching.eraseIdx k
          results := s.results ++ status.toOption.toList.map fun data => (f, data) }
      consumeCheck o congested (s.onConsumed o f status) f.node
  | .retry k =>
    match s.retrying[k]? with
    | none => s
    | some f =>
      { s with
        retrying := s.retrying.eraseIdx k
        fetching := s.fetching ++ [f] }
  | .snapFetched k status order congested =>
    match s.snapFetching[k]?, status with
    | none, _ => s
    | some (node, boot), .ok snap =>
      let s' := handleSnap o { s with snapFetching := s.snapFetching.eraseIdx k } node boot
        (.ok snap)
      consumeEach o congested s' (s'.names o order)
    | some (node, boot), .error err =>
      { s with
        snapFetching := s.snapFetching.eraseIdx k
        snapFailed := s.snapFailed ++ [((node, boot), err)] }
  | .snapRetry k order congested =>
    match s.snapFailed[k]? with
    | none => s
    | some ((node, boot), err) =>
      let s' := handleSnap o { s with snapFailed := s.snapFailed.eraseIdx k } node boot
        (.error err)
      consumeEach o congested s' (s'.names o order)
  | .subscribe pfx callback order congested =>
    let s' : SvsALO N κ W C S E :=
      { s with nodePs := s.nodePs.insert (o.svs.tlvStr pfx) ⟨pfx, callback⟩ }
    consumeEach o congested s' ((s'.names o order).filter (o.isPrefix pfx))
  | .unsubscribe pfx => { s with nodePs := s.nodePs.erase (o.svs.tlvStr pfx) }
  | .publish produced => s.produceObject o produced

/-- `NewSvsALO` with an initial state vector. -/
def new (initial : List (StateVectorEntry N)) : SvsALO N κ W C S E :=
  let entries := initial.flatMap fun node => node.seqNoEntries.map fun entry => (node.name, entry)
  let svs : SvSync κ W :=
    { state := entries.foldl (fun m e =>
        set m (o.svs.tlvStr e.1) e.2.bootstrapTime e.2.seqNo) ∅
      mtime := ∅
      suppress := false
      merge := ∅
      passiveWiresSv := ∅ }
  let state : SvMap κ (SvsDataState (SvsPub N C S)) := entries.foldl (fun m e =>
    set m (o.svs.tlvStr e.1) e.2.bootstrapTime (.upTo e.2.seqNo)) ∅
  { svs
    state := set state (o.svs.tlvStr o.name) o.svs.bootTime
      (.upTo (get svs.state (o.svs.tlvStr o.name) o.svs.bootTime)) }

/-! ### Checks -/

/-- What a check may change in an entry: numbers up to the latest become pending, and an older boot
may be passed over. -/
structure Rechecked {P : Type*} (o : SvsAloOpts N κ) (e e' : SvsDataState P) : Prop where
  latest : e'.latest = e.latest
  pendingPubs : e'.pendingPubs = e.pendingPubs
  window : e'.known = e.known ∧ e.pending ≤ e'.pending ∧ e'.pending ≤ max e.pending e.latest ∨
    o.snapshot ≠ .null ∧ e'.known = e.latest ∧ e'.pending = e.latest

/-- What a check may change. -/
structure Rechecks (o : SvsAloOpts N κ) (s s' : SvsALO N κ W C S E) : Prop where
  entries : ∀ hash boot, Rechecked o (get s.state hash boot) (get s'.state hash boot)
  svs : s'.svs = s.svs
  updates : s'.updates = s.updates
  outpipe : s'.outpipe = s.outpipe
  results : s'.results = s.results
  snapFetching : o.snapshot = .null → s'.snapFetching = s.snapFetching
  snapFailed : s'.snapFailed = s.snapFailed

variable {o}

omit [DecidableEq κ] in
lemma Rechecked.refl {P : Type*} {e : SvsDataState P} : Rechecked o e e :=
  ⟨rfl, rfl, .inl ⟨rfl, le_rfl, le_max_left _ _⟩⟩

omit [DecidableEq κ] in
lemma Rechecked.trans {P : Type*} {e e' e'' : SvsDataState P} (h : Rechecked o e e')
    (h' : Rechecked o e' e'') : Rechecked o e e'' := by
  refine ⟨h'.latest.trans h.latest, h'.pendingPubs.trans h.pendingPubs, ?_⟩
  have hwindow := h.window
  have hwindow' := h'.window
  rw [h.latest] at hwindow'
  -- once passed over, an entry stays where it is
  rcases hwindow' with ⟨hknown', hle', hmax'⟩ | hpassed
  · rcases hwindow with ⟨hknown, hle, hmax⟩ | ⟨hlatest, hknown, hpending⟩
    · exact .inl ⟨hknown'.trans hknown, hle.trans hle', by omega⟩
    · exact .inr ⟨hlatest, hknown'.trans hknown, by omega⟩
  · exact .inr hpassed

lemma Rechecks.refl : Rechecks o s s :=
  ⟨fun _ _ => .refl, rfl, rfl, rfl, rfl, fun _ => rfl, rfl⟩

lemma Rechecks.trans {s s' s'' : SvsALO N κ W C S E} (h : Rechecks o s s')
    (h' : Rechecks o s' s'') : Rechecks o s s'' where
  entries hash boot := (h.entries hash boot).trans (h'.entries hash boot)
  svs := h'.svs.trans h.svs
  updates := h'.updates.trans h.updates
  outpipe := h'.outpipe.trans h.outpipe
  results := h'.results.trans h.results
  snapFetching hnull := (h'.snapFetching hnull).trans (h.snapFetching hnull)
  snapFailed := h'.snapFailed.trans h.snapFailed

omit [DecidableEq κ] in
variable (o) in
lemma queueFetches_spec (congested : ℕ → Bool) (n total pending : ℕ) :
    pending ≤ (queueFetches o congested n total pending).2.1 ∧
      (queueFetches o congested n total pending).2.1 ≤ pending + n := by
  induction n generalizing total pending with
  | zero => exact ⟨le_rfl, le_rfl⟩
  | succ n ih =>
    rw [queueFetches]
    split_ifs
    · exact ⟨le_rfl, Nat.le_add_right _ _⟩
    · exact ⟨le_rfl, Nat.le_add_right _ _⟩
    · obtain ⟨hle, hle'⟩ := ih ((total + 1) % 2 ^ 64) (pending + 1)
      exact ⟨by omega, by omega⟩

omit [DecidableEq κ] in
lemma rechecked_latestVals {P : Type*} {threshold : ℕ} (h : o.snapshot ≠ .null)
    {vals : List (SvMapVal (SvsDataState P))} {boot : ℕ} :
    Rechecked o ((KeyedList.find SvMapVal.boot vals boot).map SvMapVal.value |>.getD default)
      ((KeyedList.find SvMapVal.boot (latestVals threshold vals).1 boot).map SvMapVal.value
        |>.getD default) := by
  induction vals with
  | nil => exact .refl
  | cons v vals ih =>
    cases vals with
    | nil =>
      rw [latestVals]
      split_ifs
      · rw [KeyedList.find_cons, KeyedList.find_cons]
        split_ifs
        · exact ⟨rfl, rfl, .inl ⟨rfl, le_rfl, le_max_left _ _⟩⟩
        · exact .refl
      · exact .refl
    | cons next vals =>
      rw [latestVals]
      dsimp only
      rw [find_cons (l := next :: vals),
        find_cons (l := (latestVals threshold (next :: vals)).1), boot_blockOld]
      split_ifs
      · rw [blockOld]
        split_ifs
        · exact .refl
        · exact ⟨rfl, rfl, .inr ⟨h, rfl, rfl⟩⟩
      · exact ih

lemma get_setEntry {boot : ℕ} {value : SvsDataState (SvsPub N C S)} {hash : κ} {boot' : ℕ} :
    get (s.setEntry o node boot value).state hash boot'
      = if hash = o.svs.tlvStr node ∧ boot' = boot then value else get s.state hash boot' :=
  get_set _

lemma rechecks_onUpdate : Rechecks o s (s.onUpdate o node) := by
  rw [onUpdate]
  split
  · exact .refl s
  · next threshold hsnapshot =>
      have hnot : o.snapshot ≠ .null := fun h => nomatch h.symm.trans hsnapshot
      split
      · exact .refl s
      · next entries hlookup =>
          refine ⟨fun hash boot => ?_, rfl, rfl, rfl, rfl, fun h => absurd h hnot, rfl⟩
          rw [SvMap.get, SvMap.get, SvMap.get?, SvMap.get?]
          dsimp only
          rw [AList.lookup_insert_eq]
          split_ifs with hhash
          · rw [hhash, hlookup]
            exact rechecked_latestVals hnot
          · exact .refl

/-- Fetches are queued for numbers up to the latest. -/
lemma rechecks_queued {s : SvsALO N κ W C S E} {node : N}
    {e : SvMapVal (SvsDataState (SvsPub N C S))} (he : s.entry o node e.boot = e.value)
    {pending : ℕ} (hle : e.value.pending ≤ pending)
    (hmax : pending ≤ max e.value.pending e.value.latest) (fetching : List (AloFetch N)) :
    Rechecks o s { s.setEntry o node e.boot { e.value with pending } with fetching } := by
  refine ⟨fun hash boot => ?_, rfl, rfl, rfl, rfl, fun _ => rfl, rfl⟩
  rw [get_setEntry]
  split_ifs with hkey
  · rw [hkey.1, hkey.2, show get s.state (o.svs.tlvStr node) e.boot = e.value from he]
    exact ⟨rfl, rfl, .inl ⟨rfl, hle, hmax⟩⟩
  · exact .refl

/-- Entries that are those of the state, one for each boot time, are checked one by one. -/
lemma rechecks_consumeEntries (congested : ℕ → ℕ → Bool) {node : N}
    {entries : List (SvMapVal (SvsDataState (SvsPub N C S)))}
    (hdistinct : Distinct boot entries) (total : ℕ) (s : SvsALO N κ W C S E)
    (hentries : ∀ e ∈ entries, s.entry o node e.boot = e.value) :
    Rechecks o s (consumeEntries o congested node entries total s) := by
  induction entries generalizing total s with
  | nil => exact .refl s
  | cons e entries ih =>
    obtain ⟨hnotin, hrest⟩ := nodup_cons.mp hdistinct
    obtain ⟨hle, hmax⟩ := queueFetches_spec o (congested e.boot)
      (e.value.latest - e.value.pending)
      ((total + usub e.value.pending e.value.known) % 2 ^ 64) e.value.pending
    have hqueued := rechecks_queued (hentries e mem_cons_self) hle
      (hmax.trans (by omega))
    rw [consumeEntries]
    dsimp only
    split_ifs
    · exact ih hrest _ s fun e' he' => hentries e' (mem_cons_of_mem e he')
    · exact hqueued _
    · refine (hqueued _).trans (ih hrest _ _ fun e' he' => ?_)
      -- the other boot times are as before
      have hboot : e'.boot ≠ e.boot := fun h => hnotin (h ▸ mem_map_of_mem he')
      rw [entry, get_setEntry, if_neg fun h => hboot h.2]
      exact hentries e' (mem_cons_of_mem e he')

lemma rechecks_consumeCheck : Rechecks o s (consumeCheck o congested s node) := by
  rw [consumeCheck]
  split_ifs
  · exact .refl s
  · refine (rechecks_onUpdate s node).trans ?_
    dsimp only
    split
    · exact .refl _
    · next entries hlookup =>
        have hdistinct : Distinct boot entries.vals :=
          pairwise_map.mpr (entries.sorted.imp fun h => h.ne)
        refine rechecks_consumeEntries _ hdistinct 0 _ fun e he => ?_
        have hfind := (find_eq_some hdistinct).mpr ⟨he, rfl⟩
        rw [entry, SvMap.get, SvMap.get?, hlookup, Option.bind_some, SvVals.get?, hfind]
        rfl

lemma rechecks_consumeEach {nodes : List N} : Rechecks o s (consumeEach o congested s nodes) := by
  induction nodes generalizing s with
  | nil => exact .refl s
  | cons node nodes ih => exact (rechecks_consumeCheck congested s node).trans (ih _)

/-! ### The initial state -/

lemma get_foldl_set {entries : List (N × SeqNoEntry)} {P : Type*} {m : SvMap κ (SvsDataState P)}
    {m' : SvMap κ ℕ} (h : ∀ hash boot, get m hash boot = .upTo (get m' hash boot))
    {hash : κ} {boot : ℕ} :
    get (entries.foldl (fun m e =>
        set m (o.svs.tlvStr e.1) e.2.bootstrapTime (.upTo e.2.seqNo)) m) hash boot
      = .upTo (get (entries.foldl (fun m e =>
        set m (o.svs.tlvStr e.1) e.2.bootstrapTime e.2.seqNo) m') hash boot) := by
  induction entries generalizing m m' with
  | nil => exact h hash boot
  | cons e entries ih =>
    refine ih fun hash boot => ?_
    rw [get_set, get_set]
    split_ifs
    · rfl
    · exact h hash boot

/-- At the start the delivery is where the state vector is. -/
lemma get_new {initial : List (StateVectorEntry N)} {hash : κ} {boot : ℕ} :
    get (new o initial : SvsALO N κ W C S E).state hash boot
      = .upTo (get (new o initial : SvsALO N κ W C S E).svs.state hash boot) := by
  rw [new]
  dsimp only
  rw [get_set]
  split_ifs with hkey
  · rw [hkey.1, hkey.2]
  · exact get_foldl_set (fun _ _ => rfl)

end SvsALO

end Mars.Sync
