import Mars.Dt.Control

/-!
The queues of data-transmission Interests: each forwarding thread has its own, by prefix,
and all threads share the control states of the faces and the global queue lengths.

* `selectDtAssignedFaceWRR`: the weighted round robin that assigns a face to an Interest;
* `enqueueLocalDtInterest`, `dequeueDtInterestForFaceRR`, `drainDtInterestForFace`,
  `reassignLocalDtInterestsFromFailedFace`: what a thread does with its queues;
* `DtQueueEvent`, `dtQueueRun`: the runs of all threads together;
* `drain_rule`, `reassign_rule`: what the loops keep.

A Go map whose missing entries read as a default is a function.
-/

namespace Mars

open Function

/-! ### The state -/

/-- `InterestQueueItem`; a PIT entry is known by the identity it has in the pool. -/
structure InterestQueueItem where
  packet : FwInterest
  pitEntry : ℕ
  inFace : Face
  ownerThreadID : ℕ
  candidateFaces : List Face
  assignedFace : Face
  deriving DecidableEq, Repr

/-- The DT fields of `Multipath`, of which each thread has its own.  `dtQueueKeys` lists the
keys of `dtQueuesByPrefix`; `dtLocalFaceKnown` and `dtLocalFaceSeen` repeat what is in
`dtLocalFacePrefixes` and `dtLocalFaceOrder` and are left out. -/
structure DtLocal where
  dtQueueKeys : List Str
  dtQueuesByPrefix : Str → List InterestQueueItem
  dtAssignByPrefix : Str → Face → ℚ
  dtLocalFacePrefixes : Face → List Str
  dtLocalFaceOrder : List Face
  dtLocalFaceRR : ℕ
  prefixRR : Face → ℕ
  dtFailureAppliedEpoch : ℕ

/-- `Instantiate`. -/
def DtLocal.new : DtLocal where
  dtQueueKeys := []
  dtQueuesByPrefix := fun _ => []
  dtAssignByPrefix := fun _ _ => 0
  dtLocalFacePrefixes := fun _ => []
  dtLocalFaceOrder := []
  dtLocalFaceRR := 0
  prefixRR := fun _ => 0
  dtFailureAppliedEpoch := 0

/-- The package-level state of the DT phase; `clamps` counts how often a clamp to zero has
changed a value. -/
structure DtShared where
  dtFaceControlByFace : Face → DtFaceControlState
  dtGlobalPrefixQueueByPrefix : Str → ℤ
  clamps : ℕ

def DtShared.new : DtShared where
  dtFaceControlByFace := fun _ => .new
  dtGlobalPrefixQueueByPrefix := fun _ => 0
  clamps := 0

/-- What a step of one thread reads and writes. -/
structure DtView where
  shared : DtShared
  own : DtLocal

/-! ### The shared counters -/

/-- Run a function on the control state of a face. -/
def DtShared.onFace (shared : DtShared) (face : Face)
    (f : DtFaceControlState → DtFaceControlState) : DtShared :=
  { shared with dtFaceControlByFace :=
      Function.update shared.dtFaceControlByFace face (f (shared.dtFaceControlByFace face)) }

/-- `noteDtThreadDemand`, on the control states of all faces. -/
def DtShared.noteThreadDemand (n : ℕ) (shared : DtShared) (face : Face) (threadID : ℕ)
    (delta : ℤ) : DtShared :=
  let clamped := (shared.dtFaceControlByFace face).demandByThread threadID + delta < 0
  { shared.onFace face fun control => noteDtThreadDemand n control threadID delta with
    clamps := if clamped then shared.clamps + 1 else shared.clamps }

/-- `noteDtGlobalPrefixQueue`. -/
def DtShared.noteGlobalPrefixQueue (shared : DtShared) (key : Str) (delta : ℤ) : DtShared :=
  let next := shared.dtGlobalPrefixQueueByPrefix key + delta
  { shared with
    dtGlobalPrefixQueueByPrefix :=
      update shared.dtGlobalPrefixQueueByPrefix key (if next < 0 then 0 else next)
    clamps := if next < 0 then shared.clamps + 1 else shared.clamps }

/-! ### The assignment of a face -/

/-- `dtCurrentFaceWeight`. -/
def dtCurrentFaceWeight (shared : DtShared) (face : Face) : ℚ :=
  let rate := (shared.dtFaceControlByFace face).rate
  if rate ≤ 0 then 1 else rate

/-- The variables of the loop of `selectDtAssignedFaceWRR`. -/
structure WrrRound where
  credits : Face → ℚ
  totalWeight : ℚ
  selected : Face
  bestCredit : ℚ

/-- One candidate: it earns its weight, and is selected if its credit beats the best so far;
of equal credits the smaller face wins. -/
def WrrRound.visit (shared : DtShared) (round : WrrRound) (face : Face) : WrrRound :=
  let weight := dtCurrentFaceWeight shared face
  let credit := round.credits face + weight
  let better := round.selected = 0 ∨ round.bestCredit < credit
    ∨ (credit = round.bestCredit ∧ face < round.selected)
  { credits := update round.credits face credit
    totalWeight := round.totalWeight + weight
    selected := if better then face else round.selected
    bestCredit := if better then credit else round.bestCredit }

/-- `selectDtAssignedFaceWRR`: the credits it leaves for the prefix, and the face.  The
credits of faces that are no candidates are dropped. -/
def selectDtAssignedFaceWRR (shared : DtShared) (credits : Face → ℚ)
    (candidateFaces : List Face) : (Face → ℚ) × Face :=
  if candidateFaces = [] then (credits, 0)
  else
    let round := candidateFaces.foldl (WrrRound.visit shared) ⟨credits, 0, 0, 0⟩
    let credits := fun face => if face ∈ candidateFaces then round.credits face else 0
    if round.selected = 0 then (credits, 0)
    else
      (update credits round.selected (credits round.selected - round.totalWeight),
        round.selected)

/-- The assignment of a face in the state of a thread. -/
def DtView.selectFace (view : DtView) (key : Str) (candidateFaces : List Face) : DtView × Face :=
  let chosen := selectDtAssignedFaceWRR view.shared (view.own.dtAssignByPrefix key) candidateFaces
  ({ view with own := { view.own with
      dtAssignByPrefix := update view.own.dtAssignByPrefix key chosen.1 } }, chosen.2)

/-! ### The queues of a thread -/

/-- `noteLocalPrefixEligibleForFace`. -/
def noteLocalPrefixEligibleForFace (own : DtLocal) (face : Face) (key : Str) : DtLocal :=
  { own with
    dtLocalFaceOrder :=
      if face ∈ own.dtLocalFaceOrder then own.dtLocalFaceOrder
      else own.dtLocalFaceOrder ++ [face]
    dtLocalFacePrefixes :=
      if key ∈ own.dtLocalFacePrefixes face then own.dtLocalFacePrefixes
      else update own.dtLocalFacePrefixes face (own.dtLocalFacePrefixes face ++ [key]) }

/-- Replace the queue of a prefix. -/
def DtLocal.setQueue (own : DtLocal) (key : Str) (queue : List InterestQueueItem) : DtLocal :=
  { own with dtQueuesByPrefix := update own.dtQueuesByPrefix key queue }

/-- The queue of a prefix is created when it is first used. -/
def DtLocal.addKey (own : DtLocal) (key : Str) : DtLocal :=
  { own with
    dtQueueKeys := if key ∈ own.dtQueueKeys then own.dtQueueKeys else own.dtQueueKeys ++ [key] }

/-- The end of `enqueueLocalDtInterest`, and the end of a reassignment: an item now waits for
a face. -/
def DtView.await (n threadID : ℕ) (view : DtView) (face : Face) (key : Str) : DtView where
  shared := view.shared.noteThreadDemand n face threadID 1
  own := noteLocalPrefixEligibleForFace view.own face key

/-- `enqueueLocalDtInterest`. -/
def enqueueLocalDtInterest (n threadID : ℕ) (view : DtView) (key : Str)
    (item : InterestQueueItem) : DtView :=
  let own := (view.own.addKey key).setQueue key (view.own.dtQueuesByPrefix key ++ [item])
  let shared := view.shared.noteGlobalPrefixQueue key 1
  if item.assignedFace ≠ 0 then DtView.await n threadID ⟨shared, own⟩ item.assignedFace key
  else ⟨shared, own⟩

/-- The items that a thread may send on a face. -/
def isFor (threadID : ℕ) (face : Face) (item : InterestQueueItem) : Bool :=
  item.ownerThreadID = threadID ∧ item.assignedFace = face

/-- The search of `dequeueDtInterestForFaceRR`: the index of the first prefix in turn that has
an item for the face, that prefix and the item. -/
def findDtInterest (own : DtLocal) (threadID : ℕ) (face : Face) :
    Option (ℕ × Str × InterestQueueItem) :=
  let prefixes := own.dtLocalFacePrefixes face
  (rrOrder prefixes.length (own.prefixRR face % prefixes.length)).findSome? fun idx =>
    ((own.dtQueuesByPrefix (prefixes.getD idx [])).find? (isFor threadID face)).map fun item =>
      (idx, prefixes.getD idx [], item)

/-- `dequeueDtInterestForFaceRR`. -/
def dequeueDtInterestForFaceRR (n threadID : ℕ) (view : DtView) (face : Face) :
    DtView × Option InterestQueueItem :=
  match findDtInterest view.own threadID face with
  | none => (view, none)
  | some (idx, key, item) =>
    let own := view.own.setQueue key
      ((view.own.dtQueuesByPrefix key).eraseP (isFor threadID face))
    let shared := view.shared.noteGlobalPrefixQueue key (-1)
    let shared :=
      if item.assignedFace ≠ 0 then shared.noteThreadDemand n item.assignedFace threadID (-1)
      else shared
    (⟨shared, { own with prefixRR := update own.prefixRR face (idx + 1) }⟩, some item)

def dtSchedulerMaxSendPerTick : ℤ := 64

/-- The loop of `drainDtInterestForFace`, with the items that go to `SendInterest`. -/
def drainLoop (n threadID : ℕ) (face : Face) : ℕ → DtView → DtView × List InterestQueueItem
  | 0, view => (view, [])
  | budget + 1, view =>
    match dequeueDtInterestForFaceRR n threadID view face with
    | (view, none) => (view, [])
    | (view, some item) =>
      let rest := drainLoop n threadID face budget view
      (rest.1, item :: rest.2)

/-- `drainDtInterestForFace`; `blocked` is what `dtBlockedFace` says of the face. -/
def drainDtInterestForFace (n threadID : ℕ) (view : DtView) (face : Face) (blocked : Bool) :
    DtView × List InterestQueueItem :=
  if blocked then (view, [])
  else if (view.shared.dtFaceControlByFace face).demandByThread threadID = 0 then (view, [])
  else
    let taken := takeDtThreadBudget n (view.shared.dtFaceControlByFace face) threadID
      dtSchedulerMaxSendPerTick
    drainLoop n threadID face taken.2.toNat
      { view with shared := view.shared.onFace face fun _ => taken.1 }

/-! ### The reassignment after a face failure -/

/-- `dtFilterFacesWithoutFailure`. -/
def dtFilterFacesWithoutFailure (candidateFaces : List Face) (blockedFace : Face) : List Face :=
  if blockedFace = 0 then candidateFaces else candidateFaces.filter (· ≠ blockedFace)

/-- The faces an item may be moved to: its other candidates, or else the other valid faces of
its prefix. -/
def survivorsOf (blockedFace : Face) (dtValidFaces : List Face) (item : InterestQueueItem) :
    List Face :=
  let survivors := dtFilterFacesWithoutFailure item.candidateFaces blockedFace
  if survivors = [] then dtFilterFacesWithoutFailure dtValidFaces blockedFace else survivors

/-- One item of `reassignLocalDtInterestsFromFailedFace`. -/
def reassignItem (n threadID : ℕ) (blockedFace : Face) (dtValidFaces : List Face) (key : Str)
    (view : DtView) (item : InterestQueueItem) : DtView × InterestQueueItem :=
  if isFor threadID blockedFace item then
    let survivors := survivorsOf blockedFace dtValidFaces item
    if survivors = [] then (view, item)
    else
      let chosen := view.selectFace key survivors
      if chosen.2 = 0 then (chosen.1, item)
      else
        let shared := chosen.1.shared.noteThreadDemand n blockedFace threadID (-1)
        (DtView.await n threadID { chosen.1 with shared := shared } chosen.2 key,
          { item with candidateFaces := survivors, assignedFace := chosen.2 })
  else (view, item)

/-- The items of one queue, in order. -/
def reassignItems (n threadID : ℕ) (blockedFace : Face) (dtValidFaces : List Face) (key : Str) :
    List InterestQueueItem → DtView → DtView × List InterestQueueItem
  | [], view => (view, [])
  | item :: queue, view =>
    let first := reassignItem n threadID blockedFace dtValidFaces key view item
    let rest := reassignItems n threadID blockedFace dtValidFaces key queue first.1
    (rest.1, first.2 :: rest.2)

/-- The queue of one prefix. -/
def reassignPrefix (n threadID : ℕ) (blockedFace : Face) (dtValidFaces : Str → List Face)
    (view : DtView) (key : Str) : DtView :=
  let moved := reassignItems n threadID blockedFace (dtValidFaces key) key
    (view.own.dtQueuesByPrefix key) view
  { moved.1 with own := moved.1.own.setQueue key moved.2 }

/-- `reassignLocalDtInterestsFromFailedFace`; `dtValidFaces` are the `DtValidFaces` of the
prefixes. -/
def reassignLocalDtInterestsFromFailedFace (n threadID : ℕ) (view : DtView)
    (blockedFace : Face) (dtValidFaces : Str → List Face) (wish : List Str) : DtView :=
  if blockedFace = 0 then view
  else (rangeOrder view.own.dtQueueKeys wish).foldl
    (reassignPrefix n threadID blockedFace dtValidFaces) view

/-! ### Runs of all threads -/

/-- The DT state of a node. -/
structure DtNode where
  shared : DtShared
  threads : ℕ → DtLocal

def DtNode.new : DtNode := ⟨.new, fun _ => .new⟩

/-- What a thread sees of the node. -/
def DtNode.view (node : DtNode) (threadID : ℕ) : DtView := ⟨node.shared, node.threads threadID⟩

/-- A step of a thread takes effect. -/
def DtNode.write (node : DtNode) (threadID : ℕ) (view : DtView) : DtNode :=
  ⟨view.shared, update node.threads threadID view.own⟩

/-- A step that concerns the queues.  Threads enqueue, dequeue, drain and reassign; the
scheduler and the rate controller act on the control state of a face. -/
inductive DtQueueEvent where
  | enqueue (threadID : ℕ) (key : Str) (packet : FwInterest) (pitEntry : ℕ) (inFace : Face)
      (candidateFaces : List Face) (assignedFace : Face)
  | dequeue (threadID : ℕ) (face : Face)
  | drain (threadID : ℕ) (face : Face) (blocked : Bool)
  | reassign (threadID : ℕ) (blockedFace : Face) (dtValidFaces : Str → List Face)
      (wish : List Str)
  | control (face : Face) (e : DtControlEvent)

/-- The node after a step.  An item is created with the id of the thread that enqueues it. -/
def dtQueueStep (n : ℕ) (node : DtNode) : DtQueueEvent → DtNode
  | .enqueue threadID key packet pitEntry inFace candidateFaces assignedFace =>
    node.write threadID (enqueueLocalDtInterest n threadID (node.view threadID) key
      ⟨packet, pitEntry, inFace, threadID, candidateFaces, assignedFace⟩)
  | .dequeue threadID face =>
    node.write threadID (dequeueDtInterestForFaceRR n threadID (node.view threadID) face).1
  | .drain threadID face blocked =>
    node.write threadID (drainDtInterestForFace n threadID (node.view threadID) face blocked).1
  | .reassign threadID blockedFace dtValidFaces wish =>
    node.write threadID (reassignLocalDtInterestsFromFailedFace n threadID
      (node.view threadID) blockedFace dtValidFaces wish)
  | .control face e =>
    { node with shared := node.shared.onFace face fun control => dtControlStep n control e }

/-- The node after a sequence of steps, from empty queues. -/
def dtQueueRun (n : ℕ) (es : List DtQueueEvent) : DtNode := Steps.run (dtQueueStep n) .new es

/-! ### What the loops keep -/

section Loops

variable {n threadID : ℕ} {view : DtView} {face : Face} {I : DtView → Prop}

lemma isFor_iff {item : InterestQueueItem} : isFor threadID face item = true
    ↔ item.ownerThreadID = threadID ∧ item.assignedFace = face := by
  simp [isFor]

lemma find?_of_findDtInterest {own : DtLocal} {idx : ℕ} {key : Str} {item : InterestQueueItem}
    (h : findDtInterest own threadID face = some (idx, key, item)) :
    (own.dtQueuesByPrefix key).find? (isFor threadID face) = some item := by
  obtain ⟨i, -, hi⟩ := List.exists_of_findSome?_eq_some h
  obtain ⟨it, hfind, heq⟩ := Option.map_eq_some_iff.mp hi
  simp only [Prod.mk.injEq] at heq
  obtain ⟨-, rfl, rfl⟩ := heq
  exact hfind

/-- What the reassignment of one prefix keeps, the loop over the prefixes keeps. -/
lemma reassign_rule {dtValidFaces : Str → List Face}
    (hstep : ∀ view key, I view → I (reassignPrefix n threadID face dtValidFaces view key))
    (h : I view) {wish : List Str} :
    I (reassignLocalDtInterestsFromFailedFace n threadID view face dtValidFaces wish) := by
  unfold reassignLocalDtInterestsFromFailedFace
  split_ifs
  · exact h
  generalize rangeOrder view.own.dtQueueKeys wish = keys
  induction keys generalizing view with
  | nil => exact h
  | cons k keys ih => exact ih (hstep view k h)

variable {O : InterestQueueItem → Prop}
  (hstep : ∀ view, I view → I (dequeueDtInterestForFaceRR n threadID view face).1
    ∧ ∀ item ∈ (dequeueDtInterestForFaceRR n threadID view face).2, O item)

include hstep

/-- What a dequeue keeps, and what it says of the item, holds of the loop. -/
lemma drainLoop_rule (h : I view) {budget : ℕ} :
    I (drainLoop n threadID face budget view).1
      ∧ ∀ item ∈ (drainLoop n threadID face budget view).2, O item := by
  induction budget generalizing view with
  | zero => exact ⟨h, by simp [drainLoop]⟩
  | succ budget ih =>
    have hnext := hstep view h
    unfold drainLoop
    split
    · rename_i view' heq
      rw [heq] at hnext
      exact ⟨hnext.1, by simp⟩
    · rename_i view' item heq
      rw [heq] at hnext
      obtain ⟨hview, hrest⟩ := ih hnext.1
      exact ⟨hview, List.forall_mem_cons.mpr ⟨hnext.2 item rfl, hrest⟩⟩

lemma drain_rule (view : DtView) (h : I view)
    (htake : I { view with shared := view.shared.onFace face fun control =>
      (takeDtThreadBudget n control threadID dtSchedulerMaxSendPerTick).1 }) (blocked : Bool) :
    I (drainDtInterestForFace n threadID view face blocked).1
      ∧ ∀ item ∈ (drainDtInterestForFace n threadID view face blocked).2, O item := by
  unfold drainDtInterestForFace
  split_ifs
  · exact ⟨h, by simp⟩
  · exact ⟨h, by simp⟩
  · exact drainLoop_rule hstep htake

end Loops

end Mars
