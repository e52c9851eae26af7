import Mars.Dv.PrefixTable

/-!
The published operation lists of a router against its snapshot.

* `hopCost`: the cost of a face among the next hops of an entry; `minCost_spec`;
* `hopAfter`: what the announcements and withdrawals so far leave of a next hop;
* `Inv`: whoever applies the published lists has the prefixes with a finite cost (`inv_step`);
* `prefix_log_agrees_with_snapshot`: log and snapshot agree at every point, unless a prefix without
  an entry is announced with `CostPfxInfinity` itself.
-/

namespace Mars.Dv

open KeyedList PrefixEntry List Option

variable {κ W : Type*} [DecidableEq κ] {nextHops : List PrefixNextHop}

/-- A local announcement or withdrawal. -/
inductive PrefixOp (κ : Type*) where
  | announce (name : List κ) (face cost : ℕ)
  | withdraw (name : List κ) (face : ℕ)

/-- What an operation makes of the next hop of a prefix. -/
def hopStep (name : List κ) (face : ℕ) (cost : Option ℕ) : PrefixOp κ → Option ℕ
  | .announce name' face' cost' => if name' = name ∧ face' = face then some cost' else cost
  | .withdraw name' face' => if name' = name ∧ face' = face then none else cost

/-- The cost that was last announced for a prefix and a face, unless it was withdrawn. -/
def hopAfter (ops : List (PrefixOp κ)) (name : List κ) (face : ℕ) : Option ℕ :=
  ops.foldl (hopStep name face) none

namespace PrefixTable

variable (hash : List κ → ℕ) (codec : PrefixCodec κ W) (own : RouterName κ)

/-- The table after an operation. -/
def step (pt : PrefixTable κ W) : PrefixOp κ → PrefixTable κ W
  | .announce name face cost => pt.announce hash codec own name face cost
  | .withdraw name face => pt.withdraw hash codec own name face

/-- Published lists are applied in order. -/
def applyAll (parse : W → Option (PrefixOpList κ)) (pt : PrefixTable κ W) (wires : List W) :
    PrefixTable κ W :=
  wires.foldl (fun pt wire => (pt.apply hash parse wire).1) pt

/-- At any other router, the published lists and the snapshot give the same costs: for the prefixes
whose lowest cost is finite, that cost. -/
def Consistent (ops : List (PrefixOp κ)) (pt : PrefixTable κ W) : Prop :=
  ∀ (remote : PrefixTable κ W) (order : List (List κ)) (name : List κ),
    (remote.applyAll hash codec.parse pt.published).costOf hash own.name name
      = (remote.apply hash codec.parse (pt.snap hash codec own order)).1.costOf hash own.name name
    ∧ ∀ c, (remote.applyAll hash codec.parse pt.published).costOf hash own.name name = some c
      ↔ c < costPfxInfinity ∧ IsLeast {c | ∃ face, hopAfter ops name face = some c} c

/-- A prefix that is announced with `CostPfxInfinity` has an entry. -/
def Announceable (pt : PrefixTable κ W) : PrefixOp κ → Prop
  | .announce name _ cost => cost = costPfxInfinity → name ∈ pt.prefixesOf hash own.name
  | .withdraw .. => True

end PrefixTable

/-! ### Next hops -/

/-- The cost of a face among next hops. -/
def hopCost (nextHops : List PrefixNextHop) (face : ℕ) : Option ℕ :=
  (KeyedList.find PrefixNextHop.face nextHops face).map PrefixNextHop.cost

lemma setNextHop_eq {nexthop : PrefixNextHop} :
    setNextHop nexthop nextHops
      = upsert PrefixNextHop.face nexthop (fun _ => nexthop) nextHops := by
  induction nextHops with
  | nil => rfl
  | cons nh nextHops ih => rw [setNextHop, upsert, ih]

lemma hopCost_setNextHop {face cost face' : ℕ} :
    hopCost (setNextHop ⟨face, cost⟩ nextHops) face'
      = if face = face' then some cost else hopCost nextHops face' := by
  rw [hopCost, setNextHop_eq, KeyedList.find_upsert fun _ _ => rfl]
  dsimp only
  split_ifs
  · cases KeyedList.find PrefixNextHop.face nextHops face' <;> rfl
  · rfl

/-- The prefix of an operation. -/
def PrefixOp.name : PrefixOp κ → List κ
  | .announce name _ _ | .withdraw name _ => name

section Operations

variable {op : PrefixOp κ} {name : List κ} {face : ℕ} {cost cost' : Option ℕ}

lemma hopStep_of_ne (h : op.name ≠ name) : hopStep name face cost op = cost := by
  cases op <;> exact if_neg fun heq => h heq.1

lemma hopStep_iff {c : ℕ} (h : cost = some c ↔ cost' = some c) :
    hopStep name face cost op = some c ↔ hopStep name face cost' op = some c := by
  cases op <;> rw [hopStep, hopStep] <;> split_ifs <;> first | rfl | exact h

end Operations

lemma le_minCost_iff {c : ℕ} :
    c ≤ minCost nextHops ↔ c < 2 ^ 64 ∧ ∀ nh ∈ nextHops, c ≤ nh.cost := by
  induction nextHops using reverseRecOn with
  | nil => exact Nat.lt_succ_iff.symm.trans (and_iff_left (forall_mem_nil _)).symm
  | append_singleton nextHops nh ih =>
    rw [minCost, foldl_append, foldl_cons, foldl_nil, ← minCost, forall_mem_append,
      forall_mem_singleton, ← and_assoc, ← ih]
    split_ifs <;> omega

/-- The lowest cost is one of the costs, and below the others. -/
lemma minCost_spec :
    (∀ nh ∈ nextHops, minCost nextHops ≤ nh.cost)
    ∧ (minCost nextHops < costPfxInfinity →
      ∃ nh ∈ nextHops, nh.cost = minCost nextHops) := by
  have hle := (le_minCost_iff.mp (le_refl (minCost nextHops))).2
  refine ⟨hle, fun hlt => ?_⟩
  by_contra hnone
  push Not at hnone
  refine Nat.lt_irrefl (minCost nextHops) (le_minCost_iff.mpr ⟨?_, fun nh hnh => ?_⟩)
  · exact lt_of_le_of_lt hlt (by decide)
  · exact lt_of_le_of_ne (hle nh hnh) (hnone nh hnh).symm

namespace PrefixTable

variable {hash : List κ → ℕ} {codec : PrefixCodec κ W} {own : RouterName κ}
  {pt : PrefixTable κ W} {ops : List (PrefixOp κ)} {entry : PrefixEntry κ}

/-! ### The snapshot -/

/-- What an applied snapshot has. -/
lemma costOf_snap
    (hnamed : ∀ {name e}, (pt.prefixesOf hash own.name).lookup name = some e → e.name = name)
    (remote : PrefixTable κ W) {order : List (List κ)} {name : List κ} :
    (remote.apply hash codec.parse (pt.snap hash codec own order)).1.costOf hash own.name name
      = ((pt.prefixesOf hash own.name).lookup name).map PrefixEntry.cost := by
  set prefixes := pt.prefixesOf hash own.name
  set adds := (rangeOrder prefixes.keys order).filterMap fun key =>
    (prefixes.lookup key).map fun entry => (⟨entry.name, entry.cost⟩ : PrefixOpAdd κ)
  have hadds : ∀ add ∈ adds.filter fun add => add.name = name,
      ∃ e, prefixes.lookup name = some e ∧ add.cost = e.cost := by
    intro add hadd
    obtain ⟨hadd, hname⟩ := mem_filter.mp hadd
    obtain ⟨key, -, hkey⟩ := mem_filterMap.mp hadd
    obtain ⟨e, he, rfl⟩ := map_eq_some_iff.mp hkey
    have hkey := (hnamed he).symm.trans (of_decide_eq_true hname)
    rw [hkey] at he
    exact ⟨e, he, rfl⟩
  rw [costOf, snap, lookup_apply (codec.parse_encode _) rfl own.nonempty, if_pos rfl, outcome,
    if_neg not_mem_nil]
  change ((adds.filter fun add => add.name = name).getLast?.elim none _).map _ = _
  cases hlast : (adds.filter fun add => add.name = name).getLast? with
  | some add =>
    obtain ⟨e, he, hcost⟩ := hadds add (mem_of_getLast? hlast)
    rw [he, map_some, ← hcost]
    rfl
  | none =>
    cases he : prefixes.lookup name with
    | none => rfl
    | some e =>
      -- the entry is among those that are added
      have hkey : name ∈ rangeOrder prefixes.keys order :=
        mem_rangeOrder.mpr (AList.mem_iff_lookup.mpr ⟨e, he⟩)
      have hadd : (⟨e.name, e.cost⟩ : PrefixOpAdd κ) ∈ adds.filter fun add => add.name = name :=
        mem_filter.mpr ⟨mem_filterMap.mpr ⟨name, hkey, by rw [he]; rfl⟩,
          decide_eq_true (hnamed he)⟩
      rw [getLast?_eq_none_iff.mp hlast] at hadd
      exact absurd hadd not_mem_nil

/-! ### The log -/

/-- The entries are as the operations so far leave them, but for next hops with infinite cost, which
go with their entry; and the published lists give the finite costs. -/
structure Inv (hash : List κ → ℕ) (codec : PrefixCodec κ W) (own : RouterName κ)
    (ops : List (PrefixOp κ)) (pt : PrefixTable κ W) : Prop where
  named : ∀ {name e}, (pt.prefixesOf hash own.name).lookup name = some e → e.name = name
  cost : ∀ {name e}, (pt.prefixesOf hash own.name).lookup name = some e →
    e.cost = minCost e.nextHops
  faces : ∀ {name e}, (pt.prefixesOf hash own.name).lookup name = some e →
    KeyedList.Distinct PrefixNextHop.face e.nextHops
  hops : ∀ name face c, c < costPfxInfinity → (hopAfter ops name face = some c
    ↔ ∃ e, (pt.prefixesOf hash own.name).lookup name = some e ∧ hopCost e.nextHops face = some c)
  log : ∀ (remote : PrefixTable κ W) name,
    (remote.applyAll hash codec.parse pt.published).costOf hash own.name name
      = (((pt.prefixesOf hash own.name).lookup name).map PrefixEntry.cost).filter
        fun c => c < costPfxInfinity

lemma costOf_apply {wire : W} {oplist : PrefixOpList κ} (hparse : codec.parse wire = some oplist)
    (hexit : oplist.exitRouter = some own.name) (remote : PrefixTable κ W) {name : List κ} :
    (remote.apply hash codec.parse wire).1.costOf hash own.name name
      = (outcome oplist name ((remote.prefixesOf hash own.name).lookup name)).map
        PrefixEntry.cost := by
  rw [costOf, lookup_apply hparse hexit own.nonempty, if_pos rfl]

lemma applyAll_concat (remote : PrefixTable κ W) {wires : List W} {wire : W} :
    remote.applyAll hash codec.parse (wires ++ [wire])
      = ((remote.applyAll hash codec.parse wires).apply hash codec.parse wire).1 := by
  rw [applyAll, foldl_append]
  rfl

omit [DecidableEq κ] in
lemma prefixesOf_setMe (pt : PrefixTable κ W) (prefixes : PrefixSet κ) :
    (pt.setMe hash own prefixes).prefixesOf hash own.name = prefixes := by
  rw [setMe, prefixesOf_insert, if_pos rfl]

omit [DecidableEq κ] in
lemma prefixesOf_reset (pt : PrefixTable κ W) :
    (pt.reset hash codec own).prefixesOf hash own.name = ∅ := prefixesOf_setMe pt ∅

lemma inv_reset (pt : PrefixTable κ W) : Inv hash codec own [] (pt.reset hash codec own) := by
  have hme : (pt.reset hash codec own).prefixesOf hash own.name = ∅ := prefixesOf_reset pt
  refine
    { named := fun h => by rw [hme] at h; simp at h
      cost := fun h => by rw [hme] at h; simp at h
      faces := fun h => by rw [hme] at h; simp at h
      hops := fun name face c _ => by rw [hme]; simp [hopAfter]
      log := fun remote name => ?_ }
  rw [hme, reset, publish, applyAll_concat, costOf_apply (codec.parse_encode _) rfl]
  rfl

/-- What is left of an entry that is stored. -/
def stored (entry : PrefixEntry κ) : Option (PrefixEntry κ) :=
  if minCost entry.nextHops = entry.cost ∨ minCost entry.nextHops < costPfxInfinity then
    some { entry with cost := minCost entry.nextHops }
  else none

variable (entry) in
/-- The stored entry has the lowest cost, and the published lists have it if it is finite. -/
lemma store_spec (hinv : Inv hash codec own ops pt) {key : List κ} (hname : entry.name = key)
    (hcost : entry.cost
      = (((pt.prefixesOf hash own.name).lookup key).map PrefixEntry.cost).getD costPfxInfinity) :
    let pt' := pt.store hash codec own key entry
    (∀ name, (pt'.prefixesOf hash own.name).lookup name
      = if name = key then stored entry else (pt.prefixesOf hash own.name).lookup name)
    ∧ ∀ (remote : PrefixTable κ W) name,
      (remote.applyAll hash codec.parse pt'.published).costOf hash own.name name
        = if name = key then
            ((stored entry).map PrefixEntry.cost).filter fun c => c < costPfxInfinity
          else (remote.applyAll hash codec.parse pt.published).costOf hash own.name name := by
  rw [store, computeCost, stored]
  by_cases hsame : minCost entry.nextHops = entry.cost
  · rw [if_pos hsame, if_pos (.inl hsame), hsame]
    refine ⟨fun name => ?_, fun remote name => ?_⟩
    · exact (congrArg _ (prefixesOf_setMe pt _)).trans AList.lookup_insert_eq
    · change costOf hash (applyAll hash codec.parse remote pt.published) own.name name = _
      split_ifs with hkey
      · -- nothing is published, and the entry had this cost or none
        rw [hinv.log, hkey, hcost]
        cases (pt.prefixesOf hash own.name).lookup key <;> simp [Option.filter]
      · rfl
  rw [if_neg hsame]
  dsimp only
  rw [if_pos rfl, publishEntry, prefixesOf_setMe, AList.lookup_insert]
  dsimp only
  by_cases hlt : minCost entry.nextHops < costPfxInfinity
  · rw [if_pos hlt, if_pos (.inr hlt)]
    refine ⟨fun name => ?_, fun remote name => ?_⟩
    · exact (congrArg _ (prefixesOf_setMe pt _)).trans AList.lookup_insert_eq
    · rw [publish, applyAll_concat, costOf_apply (codec.parse_encode _) rfl, outcome,
        if_neg List.not_mem_nil, hname]
      by_cases hkey : name = key
      · simp [hkey, hlt, Option.filter]
      · simp [hkey, Ne.symm hkey, costOf, setMe]
  · rw [if_neg hlt, if_neg (not_or.mpr ⟨hsame, hlt⟩)]
    refine ⟨fun name => ?_, fun remote name => ?_⟩
    · rw [prefixesOf_setMe, AList.lookup_erase_eq, AList.lookup_insert_eq]
      split_ifs <;> rfl
    · rw [setMe, publish, applyAll_concat, costOf_apply (codec.parse_encode _) rfl, outcome, hname]
      by_cases hkey : name = key
      · simp [hkey]
      · simp [hkey, costOf, setMe]

omit [DecidableEq κ] in
lemma mem_stored {e : PrefixEntry κ} : e ∈ stored entry
    ↔ (minCost entry.nextHops = entry.cost ∨ minCost entry.nextHops < costPfxInfinity)
      ∧ { entry with cost := minCost entry.nextHops } = e := by
  rw [stored, Option.mem_def]
  split_ifs with h <;> simp [h]

variable {op : PrefixOp κ} {name : List κ} {face : ℕ}

variable (hash own) in
/-- The entry of a prefix, or the one that is made for it. -/
def entryOf (pt : PrefixTable κ W) (name : List κ) : PrefixEntry κ :=
  ((pt.prefixesOf hash own.name).lookup name).getD { name, cost := costPfxInfinity }

/-- The entry has the next hops with a finite cost that the operations leave. -/
lemma Inv.entryOf_spec (hinv : Inv hash codec own ops pt) (name : List κ) :
    (pt.entryOf hash own name).name = name
      ∧ (pt.entryOf hash own name).cost = (((pt.prefixesOf hash own.name).lookup name).map
        PrefixEntry.cost).getD costPfxInfinity
      ∧ KeyedList.Distinct PrefixNextHop.face (pt.entryOf hash own name).nextHops
      ∧ ∀ face c, c < costPfxInfinity → (hopAfter ops name face = some c
        ↔ hopCost (pt.entryOf hash own name).nextHops face = some c) := by
  have hhops := hinv.hops name
  rw [entryOf]
  cases hold : (pt.prefixesOf hash own.name).lookup name with
  | none =>
    refine ⟨rfl, rfl, nodup_nil, fun face c hc => ?_⟩
    rw [hhops face c hc, hold]
    simp [hopCost]
  | some e =>
    refine ⟨hinv.named hold, rfl, hinv.faces hold, fun face c hc => ?_⟩
    rw [hhops face c hc, hold]
    simp

lemma hopAfter_concat :
    hopAfter (ops ++ [op]) name face = hopStep name face (hopAfter ops name face) op := by
  rw [hopAfter, foldl_append]
  rfl

variable (op nextHops) in
lemma inv_store (hinv : Inv hash codec own ops pt)
    (hfaces : KeyedList.Distinct PrefixNextHop.face nextHops)
    (hstep : ∀ face, hopCost nextHops face
      = hopStep op.name face (hopCost (pt.entryOf hash own op.name).nextHops face) op) :
    Inv hash codec own (ops ++ [op])
      (pt.store hash codec own op.name { pt.entryOf hash own op.name with nextHops }) := by
  obtain ⟨hname, hcost, -, hhops⟩ := hinv.entryOf_spec op.name
  obtain ⟨hlookup, hlog⟩ :=
    store_spec { pt.entryOf hash own op.name with nextHops } hinv hname hcost
  refine
    { named := fun {name e} he => ?_
      cost := fun {name e} he => ?_
      faces := fun {name e} he => ?_
      hops := fun name face c hc => ?_
      log := fun remote name => ?_ }
  · rw [hlookup] at he
    split_ifs at he with heq
    · obtain ⟨-, rfl⟩ := mem_stored.mp he
      exact hname.trans heq.symm
    · exact hinv.named he
  · rw [hlookup] at he
    split_ifs at he
    · obtain ⟨-, rfl⟩ := mem_stored.mp he
      rfl
    · exact hinv.cost he
  · rw [hlookup] at he
    split_ifs at he
    · obtain ⟨-, rfl⟩ := mem_stored.mp he
      exact hfaces
    · exact hinv.faces he
  · rw [hopAfter_concat, hlookup]
    split_ifs with heq
    · subst heq
      rw [hopStep_iff (hhops face c hc), ← hstep]
      refine ⟨fun hhop => ⟨_, mem_stored.mpr ⟨.inr ?_, rfl⟩, hhop⟩, fun ⟨e, he, hhop⟩ => ?_⟩
      · obtain ⟨nh, hnh, rfl⟩ := map_eq_some_iff.mp hhop
        exact (minCost_spec.1 nh (KeyedList.mem_of_find hnh).1).trans_lt hc
      · obtain ⟨-, rfl⟩ := mem_stored.mp he
        exact hhop
    · rw [hopStep_of_ne (Ne.symm heq)]
      exact hinv.hops name face c hc
  · rw [hlog, hlookup]
    split_ifs
    · rfl
    · exact hinv.log remote name

/-- An operation keeps the invariant. -/
lemma inv_step (hinv : Inv hash codec own ops pt) :
    Inv hash codec own (ops ++ [op]) (pt.step hash codec own op) := by
  cases op with
  | announce name face cost =>
    refine inv_store _ (.announce name face cost) hinv ?_ fun face' => ?_
    · rw [setNextHop_eq]
      exact (hinv.entryOf_spec name).2.2.1.upsert fun _ _ => rfl
    · rw [hopCost_setNextHop, hopStep]
      simp [PrefixOp.name, entryOf]
  | withdraw name face =>
    rw [step, withdraw]
    cases hold : (pt.prefixesOf hash own.name).lookup name with
    | none =>
      refine { hinv with hops := fun name' face' c hc => ?_ }
      rw [← hinv.hops name' face' c hc, hopAfter_concat, hopStep]
      split_ifs with heq
      · rw [hinv.hops name' face' c hc, ← heq.1, hold]
        simp
      · rfl
    | some e =>
      have hstored := inv_store
        (e.nextHops.eraseP fun nh => nh.face = face) (.withdraw name face) hinv
      rw [PrefixOp.name, entryOf, hold] at hstored
      refine hstored ?_ fun face' => ?_
      · exact (hinv.faces hold).sublist (List.eraseP_sublist.map _)
      · rw [hopCost, KeyedList.find_eraseP (hinv.faces hold), hopStep]
        simp only [true_and, eq_comm]
        split_ifs <;> rfl

/-! ### Where they agree -/

/-- Every entry has a finite cost. -/
def Finite (hash : List κ → ℕ) (own : RouterName κ) (pt : PrefixTable κ W) : Prop :=
  ∀ name e, (pt.prefixesOf hash own.name).lookup name = some e → e.cost < costPfxInfinity

namespace Inv

variable (hinv : Inv hash codec own ops pt)
include hinv

/-- A finite cost of an entry is the lowest of those that the operations leave. -/
lemma isLeast {e : PrefixEntry κ}
    (he : (pt.prefixesOf hash own.name).lookup name = some e) (hlt : e.cost < costPfxInfinity) :
    IsLeast {c | ∃ face, hopAfter ops name face = some c} e.cost := by
  obtain ⟨hle, hex⟩ := minCost_spec
  rw [← hinv.cost he] at hle hex
  constructor
  · obtain ⟨nh, hnh, hcost⟩ := hex hlt
    have hfind := (KeyedList.find_eq_some (hinv.faces he)).mpr ⟨hnh, rfl⟩
    refine ⟨nh.face, (hinv.hops name nh.face e.cost hlt).mpr ⟨e, he, ?_⟩⟩
    rw [hopCost, hfind, map_some, hcost]
  · rintro c ⟨face, hface⟩
    by_cases hc : c < costPfxInfinity
    · obtain ⟨e', he', hhop⟩ := (hinv.hops name face c hc).mp hface
      obtain rfl : e = e' := some.inj (he.symm.trans he')
      obtain ⟨nh, hnh, rfl⟩ := map_eq_some_iff.mp hhop
      exact hle nh (KeyedList.mem_of_find hnh).1
    · exact hlt.le.trans (not_lt.mp hc)

/-- The published lists give the lowest of the announced costs, if it is finite. -/
lemma costOf_iff (remote : PrefixTable κ W) (name : List κ)
    (c : ℕ) :
    (remote.applyAll hash codec.parse pt.published).costOf hash own.name name = some c
      ↔ c < costPfxInfinity ∧ IsLeast {c | ∃ face, hopAfter ops name face = some c} c := by
  rw [hinv.log, filter_eq_some_iff, map_eq_some_iff, decide_eq_true_eq]
  constructor
  · rintro ⟨⟨e, he, rfl⟩, hlt⟩
    exact ⟨hlt, hinv.isLeast he hlt⟩
  · rintro ⟨hlt, hleast⟩
    obtain ⟨face, hface⟩ := hleast.1
    obtain ⟨e, he, hhop⟩ := (hinv.hops name face c hlt).mp hface
    obtain ⟨nh, hnh, rfl⟩ := map_eq_some_iff.mp hhop
    have hlow := minCost_spec.1 nh (KeyedList.mem_of_find hnh).1
    rw [← hinv.cost he] at hlow
    exact ⟨⟨e, he, (hinv.isLeast he (hlow.trans_lt hlt)).unique hleast⟩, hlt⟩

/-- Log and snapshot agree iff every entry has a finite cost. -/
lemma consistent_iff : Consistent hash codec own ops pt ↔ pt.Finite hash own := by
  constructor
  · intro hcons name e he
    have hsame := (hcons pt [] name).1
    rw [hinv.log, costOf_snap hinv.named, he, map_some, filter_eq_some_iff] at hsame
    exact of_decide_eq_true hsame.2
  · intro hfin remote order name
    refine ⟨?_, hinv.costOf_iff remote name⟩
    rw [hinv.log, costOf_snap hinv.named]
    cases he : (pt.prefixesOf hash own.name).lookup name with
    | none => rfl
    | some e => simp [hfin name e he]

variable (name nextHops) in
/-- Storing an entry keeps the costs finite unless an infinite one stays as it was. -/
lemma finite_store (hfin : pt.Finite hash own) :
    (pt.store hash codec own name { pt.entryOf hash own name with nextHops }).Finite hash own
      ↔ (minCost nextHops = (pt.entryOf hash own name).cost →
        (pt.entryOf hash own name).cost < costPfxInfinity) := by
  obtain ⟨hname, hcost, -⟩ := hinv.entryOf_spec name
  obtain ⟨hlookup, -⟩ :=
    store_spec { pt.entryOf hash own name with nextHops } hinv hname hcost
  constructor
  · intro hafter hsame
    have hlt := hafter name _ (((hlookup name).trans (if_pos rfl)).trans
      (mem_stored.mpr ⟨.inl hsame, rfl⟩))
    exact hsame ▸ hlt
  · intro h name' e he
    rw [hlookup] at he
    split_ifs at he
    · obtain ⟨hsame | hlt, rfl⟩ := mem_stored.mp he
      · exact hsame.trans_lt (h hsame)
      · exact hlt
    · exact hfin name' e he

/-- An operation keeps the costs finite iff a prefix without an entry is not announced with
`CostPfxInfinity`. -/
lemma finite_step (hfin : pt.Finite hash own) :
    pt.Announceable hash own op ↔ (pt.step hash codec own op).Finite hash own := by
  cases op with
  | announce name face cost =>
    rw [Announceable, AList.mem_iff_lookup]
    refine Iff.trans ?_ (hinv.finite_store _ _ hfin).symm
    rw [entryOf]
    cases hold : (pt.prefixesOf hash own.name).lookup name with
    | some e => exact iff_of_true (fun _ => ⟨e, rfl⟩) fun _ => hfin name e hold
    | none =>
      have hmin : minCost (setNextHop ⟨face, cost⟩ []) = costPfxInfinity
          ↔ cost = costPfxInfinity := by
        change (if cost < 2 ^ 64 - 1 then cost else 2 ^ 64 - 1) = 0xFFFFFFFF
          ↔ cost = 0xFFFFFFFF
        split_ifs <;> omega
      rw [getD_none, hmin]
      simp
  | withdraw name face =>
    rw [Announceable, step, withdraw]
    cases hold : (pt.prefixesOf hash own.name).lookup name with
    | none => exact iff_of_true trivial hfin
    | some e =>
      have hstored := hinv.finite_store
        (e.nextHops.eraseP fun nh => nh.face = face) name hfin
      rw [entryOf, hold] at hstored
      exact iff_of_true trivial (hstored.mpr fun _ => hfin name e hold)

end Inv

lemma inv_run (pt : PrefixTable κ W) :
    Inv hash codec own ops (Steps.run (step hash codec own) (pt.reset hash codec own) ops) := by
  induction ops using List.reverseRecOn with
  | nil => exact inv_reset pt
  | append_singleton ops op ih =>
    rw [Steps.run_concat]
    exact inv_step ih

/-- **Log and snapshot agree at every point of a run iff no prefix without an entry is announced
with `CostPfxInfinity`**, over components that are short enough for the encoding. -/
theorem prefix_log_agrees_with_snapshot (hash : List κ → ℕ) (codec : PrefixCodec κ W)
    (own : RouterName κ) (pt : PrefixTable κ W) (ops : List (PrefixOp κ)) :
    (∀ ops', ops' <+: ops → Consistent hash codec own ops'
      (Steps.run (step hash codec own) (pt.reset hash codec own) ops'))
    ↔ Steps.Guarded (step hash codec own) (Announceable hash own) (pt.reset hash codec own)
      ops := by
  rw [← Steps.guarded_iff_holds (P := Finite hash own)]
  · exact forall₂_congr fun ops' _ => (inv_run pt).consistent_iff
  · intro name e he
    rw [prefixesOf_reset] at he
    simp at he
  · intro ops' op hfin
    rw [Steps.run_concat]
    exact (inv_run pt).finite_step hfin

/-- A prefix is announced with `CostPfxInfinity`: the snapshot has it, and the log does not. -/
theorem infinite_prefix_is_in_snapshot :
    let pt := ((⟨∅, []⟩ : PrefixTable ℕ (PrefixOpList ℕ)).reset sum plainCodec
      ⟨[1], by decide⟩).announce sum plainCodec ⟨[1], by decide⟩ [7] 4 0xFFFFFFFF
    let remote : PrefixTable ℕ (PrefixOpList ℕ) := ⟨∅, []⟩
    (remote.applyAll sum some pt.published).costOf sum [1] [7] = none
    ∧ (remote.apply sum some (pt.snap sum plainCodec ⟨[1], by decide⟩ [])).1.costOf
      sum [1] [7] = some 0xFFFFFFFF := by
  decide +kernel

end PrefixTable

end Mars.Dv
