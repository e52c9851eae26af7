import Mars.Encoding.Name

/-!
How a face hands a packet to the forwarding threads (`link-service.go`, `dispatch/fw.go`).

A Data packet or a NACK goes to the thread that its PIT token names; without one it goes where the
hash of its name, or of its prefixes, leads.

* `getFWThread`: the table of threads; `GoPanic` is what an index out of range and a call on a nil
  thread give;
* `hashNameToFwThread`, `hashNameToAllPrefixFwThreads`, `dispatchData`, `dispatchNack`: the
  dispatch, with the threads that the packet is queued on;
* `dispatch_total`: it is total exactly if no token names the thread just past the table;
* `StreamHasher`, `local_data_reaches_interested`: the hasher that is read after each component, and
  with it local Data without a token reaches the thread of every Interest that it may satisfy.

The 64-bit hash of a byte string is a parameter.
-/

namespace Mars

open List

/-- A run-time error: an index outside a slice, a method of a nil interface. -/
inductive GoPanic where
  | index (i : ℤ) (length : ℕ)
  | nilThread (id : ℤ)
  deriving DecidableEq, Repr

/-- What the dispatch reads of a packet: its name and its PIT token, empty if it has none. -/
structure DispatchPkt where
  name : List Component
  pitToken : Bytes

section Dispatch

variable (hash : Bytes → ℕ) (threads : ℕ)

/-- `GetFWThread`, for a table of `threads` threads. -/
def getFWThread (id : ℤ) : Except GoPanic (Option ℕ) :=
  if id < 0 ∨ (threads : ℤ) < id then .ok none
  else if id < threads then .ok (some id.toNat)
  else .error (.index id threads)

/-- The packet is queued on the thread that `GetFWThread` returns. -/
def queueOn (id : ℤ) : Except GoPanic ℕ := do
  match ← getFWThread threads id with
  | some thread => .ok thread
  | none => .error (.nilThread id)

/-- `LOCALHOST`. -/
def localhostComponent : Component := ⟨8, [108, 111, 99, 97, 108, 104, 111, 115, 116]⟩

variable (name : List Component)

/-- `Name.Hash`. -/
def nameHash : ℕ := hash (nameInner name)

/-- `PrefixHash`: the hasher is read after each component. -/
def prefixHash : List ℕ :=
  (range (name.length + 1)).map fun i => nameHash hash (name.take i)

/-- `HashNameToFwThread`. -/
def hashNameToFwThread : ℕ :=
  if name.head? = some localhostComponent then 0 else nameHash hash name % threads

/-- `HashNameToAllPrefixFwThreads`. -/
def hashNameToAllPrefixFwThreads : List Bool :=
  if name.head? = some localhostComponent then (replicate threads false).set 0 true
  else (prefixHash hash name).tail.foldl (fun matched h => matched.set (h % threads) true)
    (replicate threads false)

/-- The thread that a PIT token of ours names: a `uint16` before a `uint32`. -/
def tokenThread (pitToken : Bytes) : ℕ := readBigEndian (pitToken.take 2)

/-- `dispatchData`: the threads that the packet is queued on, none if it is dropped. -/
def dispatchData (isLocal : Bool) (pkt : DispatchPkt) : Except GoPanic (List ℕ) :=
  if pkt.pitToken.length = 6 then
    (getFWThread threads (tokenThread pkt.pitToken)).map Option.toList
  else if isLocal then
    let matched := hashNameToAllPrefixFwThreads hash threads pkt.name
    ((range matched.length).filter fun i => matched.getD i false).mapM fun i : ℕ =>
      queueOn threads i
  else (queueOn threads (hashNameToFwThread hash threads pkt.name)).map ([·])

/-- `dispatchNack`; a token that names no thread is ignored. -/
def dispatchNack (pkt : DispatchPkt) : Except GoPanic (List ℕ) := do
  let byName := (queueOn threads (hashNameToFwThread hash threads pkt.name)).map ([·])
  if pkt.pitToken.length = 6 then
    match ← getFWThread threads (tokenThread pkt.pitToken) with
    | some thread => .ok [thread]
    | none => byName
  else byName

end Dispatch

/-! ### Totality -/

variable {hash : Bytes → ℕ} {threads : ℕ} {name : List Component}

lemma getFWThread_of_lt {id : ℕ} (h : id < threads) : getFWThread threads id = .ok (some id) := by
  simp [getFWThread, h, h.le]

lemma getFWThread_of_ne {id : ℕ} (h : id ≠ threads) :
    ∃ found : Option ℕ, getFWThread threads id = .ok found ∧ ∀ t ∈ found, t < threads := by
  rcases Nat.lt_or_gt_of_ne h with hlt | hgt
  · exact ⟨some id, getFWThread_of_lt hlt, by simpa using hlt⟩
  · exact ⟨none, by simp [getFWThread, hgt], by simp⟩

lemma queueOn_of_lt {id : ℕ} (h : id < threads) : queueOn threads id = .ok id := by
  rw [queueOn, getFWThread_of_lt h]
  rfl

lemma hashNameToFwThread_lt (h : 0 < threads) : hashNameToFwThread hash threads name < threads := by
  unfold hashNameToFwThread
  split_ifs
  exacts [h, Nat.mod_lt _ h]

lemma length_hashNameToAllPrefixFwThreads :
    (hashNameToAllPrefixFwThreads hash threads name).length = threads := by
  have hloop : ∀ (hashes : List ℕ) (matched : List Bool),
      (hashes.foldl (fun matched h => matched.set (h % threads) true) matched).length
        = matched.length := by
    intro hashes
    induction hashes with
    | nil => exact fun _ => rfl
    | cons h hashes ih => exact fun matched => (ih _).trans length_set
  unfold hashNameToAllPrefixFwThreads
  split_ifs
  · rw [length_set, length_replicate]
  · rw [hloop, length_replicate]

/-- Queueing on threads of the table succeeds. -/
lemma mapM_queueOn {ids : List ℕ} (h : ∀ id ∈ ids, id < threads) :
    ids.mapM (fun id : ℕ => queueOn threads id) = .ok ids := by
  induction ids with
  | nil => rfl
  | cons id ids ih =>
    rw [forall_mem_cons] at h
    rw [mapM_cons, queueOn_of_lt h.1, ih h.2]
    rfl

/-- The packet is queued on the threads that its prefixes select. -/
lemma mapM_selected :
    let matched := hashNameToAllPrefixFwThreads hash threads name
    ((range matched.length).filter fun i => matched.getD i false).mapM
        (fun i : ℕ => queueOn threads i)
      = .ok ((range threads).filter fun i => matched.getD i false) := by
  simp only [length_hashNameToAllPrefixFwThreads]
  exact mapM_queueOn fun i hi => mem_range.mp (mem_filter.mp hi).1

/-- **Dispatch is total** exactly if the PIT token of the packet does not name the thread just past
the table: the packet is queued on threads of the table or dropped, and a NACK is always queued. -/
theorem dispatch_total (hash : Bytes → ℕ) (threads : ℕ) (hthreads : 0 < threads)
    (pkt : DispatchPkt) :
    (∀ isLocal, (∃ queued, dispatchData hash threads isLocal pkt = .ok queued
        ∧ ∀ t ∈ queued, t < threads)
          ↔ (pkt.pitToken.length = 6 → tokenThread pkt.pitToken ≠ threads))
      ∧ ((∃ t < threads, dispatchNack hash threads pkt = .ok [t])
        ↔ (pkt.pitToken.length = 6 → tokenThread pkt.pitToken ≠ threads)) := by
  have hname : hashNameToFwThread hash threads pkt.name < threads :=
    hashNameToFwThread_lt hthreads
  have hpast : getFWThread threads threads = .error (.index threads threads) := by
    simp [getFWThread]
  refine ⟨fun isLocal => ⟨?_, fun htoken => ?_⟩, ?_, fun htoken => ?_⟩
  · rintro ⟨queued, hdata, -⟩ hlength heq
    simp [dispatchData, hlength, heq, hpast, Except.map] at hdata
  · unfold dispatchData
    split_ifs with hlength
    · obtain ⟨found, heq, hlt⟩ := getFWThread_of_ne (htoken hlength)
      rw [heq]
      exact ⟨found.toList, rfl, fun t ht => hlt t (Option.mem_toList.mp ht)⟩
    · exact ⟨_, mapM_selected, fun i hi => mem_range.mp (mem_filter.mp hi).1⟩
    · rw [queueOn_of_lt hname]
      exact ⟨_, rfl, by simpa using hname⟩
  · rintro ⟨t, -, hnack⟩ hlength heq
    simp [dispatchNack, hlength, heq, hpast, bind, Except.bind] at hnack
  · unfold dispatchNack
    rw [queueOn_of_lt hname]
    split_ifs with hlength
    · obtain ⟨found, heq, hlt⟩ := getFWThread_of_ne (htoken hlength)
      rw [heq]
      cases found with
      | none => exact ⟨_, hname, rfl⟩
      | some t => exact ⟨t, hlt t rfl, rfl⟩
    · exact ⟨_, hname, rfl⟩

/-- A token for the second of two threads. -/
theorem dispatch_total_two_threads :
    ∃ t < 2, dispatchNack (fun _ => 0) 2 ⟨[], [0, 1, 0, 0, 0, 0]⟩ = .ok [t] :=
  (dispatch_total (fun _ => 0) 2 (by decide) ⟨[], [0, 1, 0, 0, 0, 0]⟩).2.mpr (by decide)

/-- The same token makes a forwarder with one thread index past its table, on Data and on a NACK. -/
theorem dispatch_past_table :
    dispatchData (fun _ => 0) 1 false ⟨[], [0, 1, 0, 0, 0, 0]⟩ = .error (.index 1 1)
      ∧ dispatchNack (fun _ => 0) 1 ⟨[], [0, 1, 0, 0, 0, 0]⟩ = .error (.index 1 1) := by
  decide

/-! ### Local Data without a token -/

/-- A hasher that is written to piece by piece: `Sum64` is the hash of all that has been written
since the hasher was reset. -/
structure StreamHasher (hash : Bytes → ℕ) where
  State : Type
  reset : State
  write : State → Bytes → State
  sum64 : State → ℕ
  sum64_write : ∀ written : List Bytes, sum64 (written.foldl write reset) = hash written.flatten

namespace StreamHasher

variable (x : StreamHasher hash)

/-- `Name.Hash`: the pool hands out a hasher that is reset. -/
def hashOf (name : List Component) : ℕ := x.sum64 (x.write x.reset (nameInner name))

/-- The loop of `PrefixHash`. -/
def sums : x.State → List Component → List ℕ
  | st, [] => [x.sum64 st]
  | st, c :: name => x.sum64 st :: sums (x.write st c.bytes) name

/-- `PrefixHash`. -/
def prefixHash (name : List Component) : List ℕ := x.sums x.reset name

lemma hashOf_eq : x.hashOf name = nameHash hash name := by
  simpa [nameHash, hashOf] using x.sum64_write [nameInner name]

lemma sums_eq (done name : List Component) :
    x.sums ((done.map Component.bytes).foldl x.write x.reset) name
      = (range (name.length + 1)).map fun i => nameHash hash (done ++ name.take i) := by
  induction name generalizing done with
  | nil => simp [sums, x.sum64_write, nameHash, nameInner, flatMap_def]
  | cons c name ih =>
    have hnext := ih (done ++ [c])
    rw [map_append, foldl_append] at hnext
    rw [sums, length_cons, range_succ_eq_map, map_cons, map_map, x.sum64_write]
    refine congrArg₂ List.cons (by simp [nameHash, nameInner, flatMap_def]) ?_
    exact hnext.trans (map_congr_left fun i _ => by simp)

/-- **The hashes that are read on the way are those of the prefixes.** -/
lemma prefixHash_eq : x.prefixHash name = Mars.prefixHash hash name :=
  x.sums_eq [] name

end StreamHasher

/-- The threads of the hashes are selected, and those that were before. -/
lemma getD_foldl_set {hashes : List ℕ} {matched : List Bool} (hlen : matched.length = threads)
    (hthreads : 0 < threads) {i : ℕ}
    (h : matched.getD i false = true ∨ ∃ a ∈ hashes, a % threads = i) :
    (hashes.foldl (fun matched a => matched.set (a % threads) true) matched).getD i false
      = true := by
  induction hashes generalizing matched with
  | nil => simpa using h
  | cons a hashes ih =>
    refine ih (by simpa using hlen) ?_
    have hlt : a % threads < matched.length := (Nat.mod_lt a hthreads).trans_eq hlen.symm
    by_cases hi : a % threads = i
    · exact .inl (by simp [← hi, hlt])
    · refine h.imp (fun hold => ?_) fun ⟨b, hb, hbi⟩ => ?_
      · simpa [getElem?_set_ne hi] using hold
      · exact ⟨b, (mem_cons.mp hb).resolve_left (by rintro rfl; exact hi hbi), hbi⟩

/-- **Local Data without a token reaches every interested thread**: it is queued on the thread that
the Interest of each non-empty prefix of its name is dispatched to, and the hashes of the prefixes
that are read off one hasher are those of the names. -/
theorem local_data_reaches_interested {hash : Bytes → ℕ} (x : StreamHasher hash) {threads : ℕ}
    (hthreads : 0 < threads) (name : List Component) (pitToken : Bytes)
    (htoken : pitToken.length ≠ 6) :
    (x.prefixHash name = (range (name.length + 1)).map fun i => x.hashOf (name.take i))
      ∧ x.prefixHash name = prefixHash hash name
      ∧ ∃ queued, dispatchData hash threads true ⟨name, pitToken⟩ = .ok queued
        ∧ ∀ p, p <+: name → p ≠ [] → hashNameToFwThread hash threads p ∈ queued := by
  have hdispatch : dispatchData hash threads true ⟨name, pitToken⟩
      = .ok ((range threads).filter fun i =>
        (hashNameToAllPrefixFwThreads hash threads name).getD i false) := by
    rw [dispatchData, if_neg htoken, if_pos rfl]
    exact mapM_selected
  refine ⟨by simp only [x.prefixHash_eq, x.hashOf_eq, prefixHash], x.prefixHash_eq, _,
    hdispatch, fun p hp hne => mem_filter.mpr
      ⟨mem_range.mpr (hashNameToFwThread_lt hthreads), ?_⟩⟩
  obtain ⟨c, p, rfl⟩ := exists_cons_of_ne_nil hne
  obtain ⟨rest, rfl⟩ := hp
  rw [hashNameToAllPrefixFwThreads, hashNameToFwThread]
  simp only [cons_append, head?_cons, Option.some.injEq]
  by_cases hlocal : c = localhostComponent
  · simp [hlocal, hthreads]
  · -- the hash of the empty prefix is the one that is skipped
    rw [if_neg hlocal, if_neg hlocal]
    refine getD_foldl_set length_replicate hthreads (.inr ⟨_, ?_, rfl⟩)
    rw [prefixHash, range_succ_eq_map, map_cons, tail_cons, map_map]
    refine mem_map.mpr ⟨p.length, ?_, by simp⟩
    simp only [mem_range, length_cons, length_append]
    omega

/-- Two threads and Data below `/localhost`, with a hasher whose hashes are all the same. -/
theorem local_data_reaches_interested_two_threads :
    ∃ queued,
      dispatchData (fun _ => 1) 2 true ⟨[localhostComponent, ⟨8, [1]⟩], []⟩ = .ok queued
        ∧ hashNameToFwThread (fun _ => 1) 2 [localhostComponent] ∈ queued := by
  let x : StreamHasher fun _ => 1 := ⟨Unit, (), fun _ _ => (), fun _ => 1, fun _ => rfl⟩
  obtain ⟨-, -, queued, hqueued, hall⟩ := local_data_reaches_interested x (by decide : 0 < 2)
    [localhostComponent, ⟨8, [1]⟩] [] (by decide)
  exact ⟨queued, hqueued, hall _ (prefix_append _ [_]) (by simp)⟩

end Mars
