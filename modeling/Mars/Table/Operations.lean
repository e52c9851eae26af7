import Mars.Lib.Recency
import Mars.Lib.Steps
import Mars.Table.ContentStore
import Mathlib.Logic.Equiv.List

/-!
Runs of the table: any sequence of its operations.

* `TableOp`, `tableStep`, `tableRun`: the operations;
* `TableWf`: the PIT and the content store are well formed, in every run (`tableWf_tableRun`);
* `uses`: the indices that a run inserts, refreshes or hits, in order; `ordered_tableRun`: the
  queue is in this order as long as no prefix match hits;
* `content_store_is_lru`: the content store as an LRU cache.
-/

namespace Mars

open Function

variable {cfg : TableConfig} {p p' : PitCsTree} {index : ℕ} {data : FwData} {now : Time}

/-- An operation of the table, with the reading of the clock it takes. -/
inductive TableOp where
  | insertInterest (interest : FwInterest) (nonce : ℕ) (hint : Option Name) (inFace : Face)
      (pick : ℕ)
  | removeInterest (e : ℕ)
  | findInterestExactMatch (interest : FwInterest)
  | findInterestPrefixMatchByData (name : Name) (token : Option ℕ)
  | insertData (data : FwData) (now : Time)
  | findMatchingDataFromCS (interest : FwInterest) (now : Time) (wish : List ℕ)

/-- The table after an operation. -/
def tableStep (cfg : TableConfig) (p : PitCsTree) : TableOp → PitCsTree
  | .insertInterest interest nonce hint inFace pick =>
    (p.insertInterest cfg interest nonce hint inFace pick).1
  | .removeInterest e => p.removeInterest e
  | .findInterestExactMatch _ => p
  | .findInterestPrefixMatchByData _ _ => p
  | .insertData data now => p.insertData cfg data now
  | .findMatchingDataFromCS interest now wish => (p.findMatchingDataFromCS cfg interest now wish).1

/-- The table after a sequence of operations. -/
def tableRun (cfg : TableConfig) (ops : List TableOp) : PitCsTree :=
  Steps.run (tableStep cfg) .new ops

/-! ### The table is well formed -/

lemma pitWf_tableStep (h : PitWf p) {op : TableOp} : PitWf (tableStep cfg p op) := by
  cases op with
  | insertInterest interest nonce hint inFace pick =>
    exact (insertInterest_spec h cfg interest nonce hint inFace pick).1.wf
  | removeInterest e => exact (removeInterest_spec h).1
  | findInterestExactMatch interest => exact h
  | findInterestPrefixMatchByData name token => exact h
  | insertData data now => exact (grows_insertData h cfg data now).wf
  | findMatchingDataFromCS interest now wish =>
    exact (grows_findMatchingDataFromCS h cfg interest now wish).wf

/-- The PIT and the content store are well formed. -/
structure TableWf (cfg : TableConfig) (p : PitCsTree) : Prop where
  pit : PitWf p
  cs : CsWf cfg cfg.csCapacity p

/-- The hashes tell new Data from what is stored. -/
def TableOp.Apart (cfg : TableConfig) (p : PitCsTree) : TableOp → Prop
  | .insertData data _ => p.Apart cfg data.name
  | _ => True

lemma tableWf_tableStep (h : TableWf cfg p) {op : TableOp} (hop : op.Apart cfg p) :
    TableWf cfg (tableStep cfg p op) where
  pit := pitWf_tableStep h.pit
  cs := by
    cases op with
    | insertInterest interest nonce hint inFace pick =>
      obtain ⟨hstore, hat⟩ := insertInterest_store h.pit cfg interest nonce hint inFace pick
      exact h.cs.congr hstore hat
    | removeInterest e =>
      obtain ⟨hstore, hat⟩ := removeInterest_store p e
      exact h.cs.congr hstore hat
    | findInterestExactMatch interest => exact h.cs
    | findInterestPrefixMatchByData name token => exact h.cs
    | insertData data now => exact h.cs.insertData hop h.pit
    | findMatchingDataFromCS interest now wish => exact h.cs.findMatchingDataFromCS

/-- They do in a whole run. -/
def RunsApart (cfg : TableConfig) (ops : List TableOp) : Prop :=
  Steps.Guarded (tableStep cfg) (fun p op => op.Apart cfg p) .new ops

lemma tableWf_tableRun {ops : List TableOp} (hops : RunsApart cfg ops) :
    TableWf cfg (tableRun cfg ops) :=
  Steps.guarded_invariant (I := TableWf cfg) (fun _ _ h hop => tableWf_tableStep h hop)
    ⟨pitWf_new, csWf_new⟩ hops

/-- **The cache answers what is asked for**: the name of a hit begins with that of the Interest, if
the hashes of the names that are stored and asked for tell them apart. -/
theorem cache_hit_named (cfg : TableConfig) (ops : List TableOp) (hops : RunsApart cfg ops)
    (interest : FwInterest) (now : Time) (wish : List ℕ)
    (hasked : ∀ i entry, (tableRun cfg ops).csMap i = some entry →
      cfg.keys interest.name <+: cfg.keys entry.data.name → interest.name <+: entry.data.name) :
    ∀ index ∈ ((tableRun cfg ops).findMatchingDataFromCS cfg interest now wish).2, ∃ entry,
      (tableRun cfg ops).csMap index = some entry ∧ interest.name <+: entry.data.name := by
  intro index hindex
  have hcs := (tableWf_tableRun hops).cs
  obtain ⟨node, hbelow, hat⟩ := findMatchingDataFromCS_csAt hindex
  obtain ⟨entry, hentry, rfl⟩ := (hcs.stored node index).mp hat
  rw [(hcs.named index entry hentry).2] at hbelow
  have hkeys : cfg.keys interest.name <+: cfg.keys entry.data.name := List.reverse_suffix.mp hbelow
  exact ⟨entry, hentry, hasked index entry hentry hkeys⟩

/-! ### Recency -/

/-- The index that an operation inserts, refreshes or hits, by an exact or a prefix match. -/
def TableOp.uses (cfg : TableConfig) (p : PitCsTree) : TableOp → List ℕ
  | .insertData data _ => [cfg.nameHash data.name]
  | .findMatchingDataFromCS interest now wish =>
    (p.findMatchingDataFromCS cfg interest now wish).2.toList
  | _ => []

/-- An operation, with what it uses. -/
def tableHandle (cfg : TableConfig) (p : PitCsTree) (op : TableOp) : PitCsTree × List ℕ :=
  (tableStep cfg p op, op.uses cfg p)

/-- The indices that a run uses, in order. -/
def uses (cfg : TableConfig) (ops : List TableOp) : List ℕ :=
  Steps.trace (tableHandle cfg) .new ops

/-- A prefix match finds nothing to hit. -/
def ExactHits (cfg : TableConfig) (p : PitCsTree) : TableOp → Prop
  | .findMatchingDataFromCS interest _ _ =>
    interest.canBePrefix = true → ¬p.Caches cfg interest.name
  | _ => True

/-- There is room for new data. -/
def Roomy (cfg : TableConfig) (p : PitCsTree) : TableOp → Prop
  | .insertData data _ =>
    p.csMap (cfg.nameHash data.name) ≠ none ∨ p.csQueue.length < cfg.csCapacity
  | _ => True

/-- What a lookup does: it finds nothing, or hits an index, which an exact match moves to the
back. -/
lemma findMatchingDataFromCS_cases (cfg : TableConfig) (p : PitCsTree) (interest : FwInterest)
    (now : Time) (wish : List ℕ) :
    p.findMatchingDataFromCS cfg interest now wish = (p, none)
      ∨ ∃ index, p.findMatchingDataFromCS cfg interest now wish
        = (if interest.canBePrefix then p else p.touchCs index, some index) := by
  unfold PitCsTree.findMatchingDataFromCS
  split
  · exact .inl rfl
  · rename_i node _
    split_ifs
    · cases p.findMatchingDataCSPrefix interest.mustBeFresh now wish p.tree.paths.card node with
      | none => exact .inl rfl
      | some index => exact .inr ⟨index, rfl⟩
    · split
      · exact .inl rfl
      · exact .inr ⟨_, rfl⟩

/-- The queue after `InsertData`: the index is at the back, and the front is evicted if the
store is full. -/
lemma csQueue_insertData (h : CsWf cfg cfg.csCapacity p) :
    (p.insertData cfg data now).csQueue = touch p.csQueue (cfg.nameHash data.name)
      ∨ (p.insertData cfg data now).csQueue
        = (touch p.csQueue (cfg.nameHash data.name)).tail := by
  have hinserts : InsertsData cfg p data now (p.insertData cfg data now) := h.insertsData
  generalize p.insertData cfg data now = p' at hinserts ⊢
  cases hinserts with
  | refreshed entry hsome | stored hnone hroom => exact .inl rfl
  | replaced hnone hfull => exact .inr rfl

/-- **What one operation keeps**: the queue stays in the order of last use. -/
lemma ordered_tableStep {out : List ℕ} (h : TableWf cfg p)
    (hordered : Recency.Ordered out p.csQueue) {op : TableOp} (hop : ExactHits cfg p op) :
    Recency.Ordered (out ++ op.uses cfg p) (tableStep cfg p op).csQueue := by
  have huse := hordered.use h.cs.nodup
  cases op with
  | insertInterest interest nonce hint inFace pick =>
    simp only [tableStep, TableOp.uses, List.append_nil]
    rw [(insertInterest_store h.pit cfg interest nonce hint inFace pick).1.csQueue]
    exact hordered
  | removeInterest e =>
    simp only [tableStep, TableOp.uses, List.append_nil]
    rw [(removeInterest_store p e).1.csQueue]
    exact hordered
  | findInterestExactMatch interest | findInterestPrefixMatchByData name token =>
    simpa [tableStep, TableOp.uses] using hordered
  | insertData data now =>
    have htouched := huse (cfg.nameHash data.name)
    simp only [tableStep, TableOp.uses]
    rcases csQueue_insertData h.cs with heq | heq
    · rw [heq]
      exact htouched
    · rw [heq]
      exact htouched.sublist (List.tail_sublist _)
  | findMatchingDataFromCS interest now wish =>
    rcases findMatchingDataFromCS_cases cfg p interest now wish with heq | ⟨index, heq⟩
    · simpa [tableStep, TableOp.uses, heq] using hordered
    · obtain ⟨node, hbelow, hat⟩ := findMatchingDataFromCS_csAt (congrArg Prod.snd heq)
      have hexact : ¬interest.canBePrefix = true := fun hprefix =>
        hop hprefix ⟨node, index, hbelow, hat⟩
      rw [if_neg hexact] at heq
      simp only [tableStep, TableOp.uses, heq, Option.toList_some]
      exact huse index

lemma ordered_tableRun {ops : List TableOp}
    (hapart : RunsApart cfg ops)
    (hops : Steps.Guarded (tableStep cfg) (ExactHits cfg) .new ops) :
    Recency.Ordered (uses cfg ops) (tableRun cfg ops).csQueue := by
  have hstep : ∀ out p op, TableWf cfg p ∧ Recency.Ordered out p.csQueue →
      op.Apart cfg p ∧ ExactHits cfg p op → TableWf cfg (tableHandle cfg p op).1
        ∧ Recency.Ordered (out ++ (tableHandle cfg p op).2) (tableHandle cfg p op).1.csQueue :=
    fun out p op h hop => ⟨tableWf_tableStep h.1 hop.1, ordered_tableStep h.1 h.2 hop.2⟩
  have hnew : TableWf cfg .new ∧ Recency.Ordered [] PitCsTree.new.csQueue :=
    ⟨⟨pitWf_new, csWf_new⟩, Recency.ordered_nil⟩
  exact (Steps.trace_invariant (I := fun out p => TableWf cfg p ∧ Recency.Ordered out p.csQueue)
    hstep hnew (hapart.and hops)).2

/-- While there is room, the keys of `locations` are the indices in the queue. -/
lemma locations_tableStep (h : TableWf cfg p) (hsub : ∀ i ∈ p.csLocations, i ∈ p.csQueue)
    {op : TableOp} (hop : Roomy cfg p op) :
    ∀ i ∈ (tableStep cfg p op).csLocations, i ∈ (tableStep cfg p op).csQueue := by
  have htouch : ∀ index, ∀ i ∈ insert index p.csLocations, i ∈ touch p.csQueue index := by
    intro index i hi
    rw [mem_touch]
    rcases Finset.mem_insert.mp hi with rfl | hi
    exacts [.inr rfl, .inl (hsub i hi)]
  cases op with
  | insertInterest interest nonce hint inFace pick =>
    have hstore := (insertInterest_store h.pit cfg interest nonce hint inFace pick).1
    rw [tableStep, hstore.csLocations, hstore.csQueue]
    exact hsub
  | removeInterest e =>
    have hstore := (removeInterest_store p e).1
    rw [tableStep, hstore.csLocations, hstore.csQueue]
    exact hsub
  | findInterestExactMatch interest => exact hsub
  | findInterestPrefixMatchByData name token => exact hsub
  | insertData data now =>
    have hinserts : InsertsData cfg p data now (p.insertData cfg data now) :=
      h.cs.insertsData
    rw [tableStep]
    generalize p.insertData cfg data now = p' at hinserts ⊢
    cases hinserts with
    | refreshed entry hsome | stored hnone hroom => exact htouch _
    | replaced hnone hfull => exact absurd hop (by simp [Roomy, hnone, hfull])
  | findMatchingDataFromCS interest now wish =>
    rw [tableStep]
    rcases findMatchingDataFromCS_cases cfg p interest now wish with heq | ⟨index, heq⟩
    · rw [heq]
      exact hsub
    · rw [heq]
      dsimp only
      split_ifs
      exacts [hsub, htouch index]

/-- The insertion of data takes the entry with this index out of the store: one that was there,
or the new one. -/
structure Evicts (cfg : TableConfig) (p : PitCsTree) (data : FwData) (now : Time) (i : ℕ) :
    Prop where
  here : p.csMap i ≠ none ∨ i = cfg.nameHash data.name
  gone : (p.insertData cfg data now).csMap i = none

/-- The entry that is evicted is older than all that stay, if the queue is in the order of last
use. -/
lemma older_of_evicts (hapart : p.Apart cfg data.name) (h : TableWf cfg p)
    {out : List ℕ} (hordered : Recency.Ordered out p.csQueue) {i j : ℕ}
    (hi : Evicts cfg p data now i) (hj : (p.insertData cfg data now).csMap j ≠ none) :
    Recency.Older (out ++ [cfg.nameHash data.name]) i j := by
  obtain ⟨hhere, hgone⟩ := hi
  have htouched := hordered.use h.cs.nodup (cfg.nameHash data.name)
  have hinserts : InsertsData cfg p data now (p.insertData cfg data now) := h.cs.insertsData
  -- an entry that was there, or is new, is in the store before anything is evicted
  have hstored : ∀ q : PitCsTree, (∀ k, k ∈ q.csQueue ↔ q.csMap k ≠ none) →
      q.csQueue = touch p.csQueue (cfg.nameHash data.name) → q.csMap i ≠ none := by
    intro q hq hqueue
    rw [← hq, hqueue, mem_touch, h.cs.queued]
    exact hhere
  generalize p.insertData cfg data now = p' at hinserts hgone hj
  cases hinserts with
  | refreshed entry hsome =>
    refine absurd hgone ?_
    simp only [PitCsTree.touchCs]
    rcases eq_or_ne i (cfg.nameHash data.name) with rfl | hne
    · rw [update_self]
      exact Option.some_ne_none _
    · rw [update_of_ne hne]
      exact hhere.resolve_right hne
  | stored hnone hroom =>
    have hnew := h.cs.storeData hapart h.pit hnone now
    exact absurd hgone (hstored _ hnew.queued rfl)
  | replaced hnone hfull =>
    have hnew := h.cs.storeData hapart h.pit hnone now
    have hlen : (p.storeData cfg data now).csQueue.length = cfg.csCapacity + 1 :=
      (length_storeData (fun hin => (h.cs.queued _).mp hin hnone) now).trans
        (congrArg Nat.succ hfull)
    have hleft := hnew.evictOldest hlen
    have hin : i ∈ (p.storeData cfg data now).csQueue :=
      (hnew.queued i).mpr (hstored _ hnew.queued rfl)
    have hout : i ∉ (p.storeData cfg data now).evictOldest.csQueue :=
      fun hi => (hleft.queued i).mp hi hgone
    have hjin : j ∈ (p.storeData cfg data now).evictOldest.csQueue := (hleft.queued j).mpr hj
    change Recency.Ordered _ (p.storeData cfg data now).csQueue at htouched
    change i ∉ (p.storeData cfg data now).csQueue.tail at hout
    change j ∈ (p.storeData cfg data now).csQueue.tail at hjin
    generalize (p.storeData cfg data now).csQueue = queue at htouched hin hout hjin
    cases queue with
    | nil => exact absurd hin List.not_mem_nil
    | cons oldest rest =>
      obtain rfl : i = oldest := (List.mem_cons.mp hin).resolve_right hout
      exact htouched.older_of_cons hjin

/-- **The content store as an LRU cache**, over any operations of the table with hashes that tell
new Data from what is stored.  The CS entries of the nodes, those of the map and the queue are the
same, and there are no more than the capacity.  As long as data is only inserted where there is
room, they are the keys of `locations` too; as long as prefix matches hit nothing, an insertion
evicts the entry whose last insertion, refresh or hit is oldest. -/
theorem content_store_is_lru (cfg : TableConfig) (ops : List TableOp)
    (hapart : RunsApart cfg ops) :
    (∀ i, i ∈ (tableRun cfg ops).csQueue ↔ (tableRun cfg ops).csMap i ≠ none)
      ∧ (∀ i, i ∈ (tableRun cfg ops).csQueue ↔ ∃ node, (tableRun cfg ops).CsAt node i)
      ∧ (tableRun cfg ops).csQueue.Nodup
      ∧ (tableRun cfg ops).csQueue.length ≤ cfg.csCapacity
      ∧ (Steps.Guarded (tableStep cfg) (Roomy cfg) .new ops →
        ∀ i, i ∈ (tableRun cfg ops).csLocations ↔ i ∈ (tableRun cfg ops).csQueue)
      ∧ (Steps.Guarded (tableStep cfg) (ExactHits cfg) .new ops →
        ∀ data now i j, (tableRun cfg ops).Apart cfg data.name →
          Evicts cfg (tableRun cfg ops) data now i →
          ((tableRun cfg ops).insertData cfg data now).csMap j ≠ none →
          Recency.Older (uses cfg ops ++ [cfg.nameHash data.name]) i j) := by
  have h := tableWf_tableRun hapart
  refine ⟨h.cs.queued, fun i => ?_, h.cs.nodup, h.cs.fits, fun hops i => ⟨?_, h.cs.located i⟩,
    fun hops data now i j hdata hi hj => ?_⟩
  · rw [h.cs.queued, Option.ne_none_iff_exists']
    simp only [h.cs.stored]
    constructor
    · rintro ⟨entry, hentry⟩
      exact ⟨entry.node, entry, hentry, rfl⟩
    · rintro ⟨_, entry, hentry, -⟩
      exact ⟨entry, hentry⟩
  · have hrun : TableWf cfg (tableRun cfg ops)
        ∧ ∀ i ∈ (tableRun cfg ops).csLocations, i ∈ (tableRun cfg ops).csQueue :=
      Steps.guarded_invariant
        (I := fun p => TableWf cfg p ∧ ∀ i ∈ p.csLocations, i ∈ p.csQueue)
        (fun p op h hop => ⟨tableWf_tableStep h.1 hop.1, locations_tableStep h.1 h.2 hop.2⟩)
        ⟨⟨pitWf_new, csWf_new⟩, fun i hi => absurd hi (Finset.notMem_empty i)⟩ (hapart.and hops)
    exact hrun.2 i
  · exact older_of_evicts hdata h (ordered_tableRun hapart hops) hi hj

/-- A table for two Data packets, with hashes that do not collide. -/
def twoDataTable : TableConfig where
  componentHash := fun s => Encodable.encode (s.map Char.toNat)
  nameHash := fun name => Encodable.encode (name.map fun s => s.map Char.toNat)
  csAdmit := true
  csServe := true
  csCapacity := 2
  deadNonceListLifetime := 6000000000
  producerRegions := []

lemma componentHash_injective : Injective twoDataTable.componentHash :=
  Encodable.encode_injective.comp (List.map_injective_iff.mpr fun _ _ => Char.toNat_inj.mp)

lemma nameHash_injective : Injective twoDataTable.nameHash :=
  Encodable.encode_injective.comp (List.map_injective_iff.mpr
    (List.map_injective_iff.mpr fun _ _ => Char.toNat_inj.mp))

lemma apart_twoDataTable (p : PitCsTree) (name : Name) : p.Apart twoDataTable name := by
  rintro i entry - (hhash | hnode)
  · exact nameHash_injective hhash
  · exact List.map_injective_iff.mpr componentHash_injective (List.reverse_injective hnode)

lemma runsApart_twoDataTable (ops : List TableOp) : RunsApart twoDataTable ops := by
  refine Steps.guarded_of_forall_mem (fun op _ p => ?_) _
  cases op <;> first | trivial | exact apart_twoDataTable p _

/-- The index of a name. -/
abbrev indexOf (name : Name) : ℕ := twoDataTable.nameHash name

/-- Data for `/a/1` and `/b` is stored, and `/a/1` is hit by an Interest. -/
def storeAndHit (interest : FwInterest) : List TableOp :=
  [.insertData (dataNamed [['a'], ['1']]) 0, .insertData (dataNamed [['b']]) 0,
    .findMatchingDataFromCS interest 0 []]

theorem cache_hit_named_below :
    ∃ entry, (tableRun twoDataTable (storeAndHit (plainInterest [] 7))).csMap
      (indexOf [['a'], ['1']]) = some entry ∧ [['a']] <+: entry.data.name :=
  cache_hit_named twoDataTable _ (runsApart_twoDataTable _)
    { plainInterest [['a']] 7 with canBePrefix := true } 0 []
    (fun _ _ _ => (List.prefix_map_iff_of_injective componentHash_injective).mp) _
    (by decide +kernel)

theorem content_store_is_lru_exact :
    let ops := storeAndHit (plainInterest [['a'], ['1']] 7)
    Evicts twoDataTable (tableRun twoDataTable ops) (dataNamed [['c']]) 0 (indexOf [['b']])
      ∧ Recency.Older (uses twoDataTable ops ++ [indexOf [['c']]]) (indexOf [['b']])
        (indexOf [['a'], ['1']])
      ∧ ∀ i, i ∈ (tableRun twoDataTable ops).csLocations
        ↔ i ∈ (tableRun twoDataTable ops).csQueue := by
  intro ops
  obtain ⟨-, -, -, -, hlocations, holder⟩ := content_store_is_lru twoDataTable ops
    (runsApart_twoDataTable ops)
  have hevicts : Evicts twoDataTable (tableRun twoDataTable ops) (dataNamed [['c']]) 0
      (indexOf [['b']]) := ⟨.inl (by decide +kernel), by decide +kernel⟩
  refine ⟨hevicts, ?_, ?_⟩
  · exact holder ⟨trivial, trivial, nofun, trivial⟩ _ 0 _ _ (apart_twoDataTable _ _) hevicts
      (by decide +kernel)
  · exact hlocations ⟨.inr (by decide), .inr (by decide +kernel), trivial, trivial⟩

/-- The Data for `/a/1` is hit by an Interest for `/a` that can be a prefix, and so used after
`/b`.  New Data evicts it all the same, and leaves its key in `locations`. -/
theorem prefix_hit_is_no_use :
    let ops := storeAndHit { plainInterest [['a']] 7 with canBePrefix := true }
    let after := (tableRun twoDataTable ops).insertData twoDataTable (dataNamed [['c']]) 0
    uses twoDataTable ops = [indexOf [['a'], ['1']], indexOf [['b']], indexOf [['a'], ['1']]]
      ∧ (tableRun twoDataTable ops).csMap (indexOf [['a'], ['1']]) ≠ none
      ∧ after.csMap (indexOf [['a'], ['1']]) = none ∧ after.csMap (indexOf [['b']]) ≠ none
      ∧ ¬Recency.Older (uses twoDataTable ops ++ [indexOf [['c']]]) (indexOf [['a'], ['1']])
        (indexOf [['b']])
      ∧ indexOf [['a'], ['1']] ∈ after.csLocations ∧ indexOf [['a'], ['1']] ∉ after.csQueue := by
  decide +kernel

end Mars
