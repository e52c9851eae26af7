import Mars.Basic
import Mars.Lib.FinMap
import Mars.Lib.KeyedList
import Mars.Lib.Steps

/-!
The forwarding table of the distance-vector router, and the commands to the forwarder.

* `Fib.updateH`, `Fib.removeUnmarked`, `Fib.updateFib`: a round registers the desired entries, and
  removes the names that it did not mark;
* `leastCost`: the lowest of the desired costs of a face, which is what merging leaves
  (`costAt_mergeEntries`);
* `FibCmd.exec`: what a command does to the table of the forwarder; `Ok`: replaying the commands
  gives the prefixes (`ok_updateH`);
* `commands_reproduce_fib`: after every round both are the lowest desired costs.
-/

namespace Mars.Dv

open KeyedList List Option

/-! ### The table -/

/-- `CostPfxInfinity`. -/
def costPfxInfinity : ℕ := 0xFFFFFFFF

/-- `FibEntry`. -/
structure FibEntry where
  faceId : ℕ
  cost : ℕ
  prevCost : ℕ := 0

/-- A command to the forwarder: `rib/register` or `rib/unregister`. -/
inductive FibCmd (N : Type*) where
  | register (name : N) (faceId cost : ℕ)
  | unregister (name : N) (faceId : ℕ)

/-- `Fib`, with the commands sent so far. -/
structure Fib (N : Type*) where
  names : FinMap ℕ N
  prefixes : FinMap ℕ (List FibEntry)
  mark : FinMap ℕ Bool
  sent : List (FibCmd N)

/-- The cost is infinite until it is set again. -/
def FibEntry.expired (e : FibEntry) : FibEntry :=
  { e with
    prevCost := e.cost
    cost := costPfxInfinity }

/-- Merge a new entry: the first entry with its face gets the lower cost, or it is added. -/
def mergeEntry (newEntry : FibEntry) : List FibEntry → List FibEntry
  | [] => [{ newEntry with prevCost := costPfxInfinity }]
  | old :: rest =>
    if old.faceId = newEntry.faceId then
      { old with cost := min newEntry.cost old.cost } :: rest
    else old :: mergeEntry newEntry rest

/-- The loop over the new entries. -/
def mergeEntries (oldEntries newEntries : List FibEntry) : List FibEntry :=
  newEntries.foldl (fun entries newEntry =>
    if costPfxInfinity ≤ newEntry.cost then entries else mergeEntry newEntry entries) oldEntries

/-- A call of `register` in `updateFib`. -/
structure Registration (N : Type*) where
  name : N
  fes : List FibEntry
  cost : ℕ

/-- A round of `updateFib`: what is registered, and the orders of the loops over maps. -/
structure FibRound (N : Type*) where
  registered : List (Registration N)
  updateOrder : List ℕ
  removeOrder : List ℕ

/-- The entries of a call, with the cost added. -/
def Registration.entries {N : Type*} (call : Registration N) : List FibEntry :=
  call.fes.map fun fe => { fe with cost := (fe.cost + call.cost) % 2 ^ 64 }

namespace Fib

variable {N : Type*} (hash : N → ℕ)

/-- `NewFib`. -/
def new : Fib N := ⟨∅, ∅, ∅, []⟩

variable (fib : Fib N)

/-- `UpdateH`. -/
def updateH (nameH : ℕ) (name : N) (newEntries : List FibEntry) : Fib N × Bool :=
  let names := if nameH ∈ fib.names then fib.names else fib.names.insert nameH name
  let oldEntries := ((fib.prefixes.lookup nameH).getD []).map FibEntry.expired
  let oldEntries := mergeEntries oldEntries newEntries
  let finalEntries := oldEntries.filter fun e => e.cost < costPfxInfinity
  let sent := fib.sent
    ++ (oldEntries.filter fun e => costPfxInfinity ≤ e.cost).map
      (fun e => .unregister name e.faceId)
    ++ (finalEntries.filter fun e => e.cost ≠ e.prevCost).map
      (fun e => .register name e.faceId e.cost)
  if 0 < finalEntries.length then
    (⟨names, fib.prefixes.insert nameH finalEntries, fib.mark, sent⟩, true)
  else (⟨names.erase nameH, fib.prefixes.erase nameH, fib.mark.erase nameH, sent⟩, false)

/-- `MarkH`. -/
def markH (nameH : ℕ) : Fib N := { fib with mark := fib.mark.insert nameH true }

/-- `UnmarkAll`. -/
def unmarkAll : Fib N := { fib with mark := ∅ }

/-- The body of the loop in `RemoveUnmarked`; the names in the table are not nil. -/
def removeIfUnmarked (nh : ℕ) : Fib N :=
  if fib.mark.lookup nh = some true then fib
  else
    match fib.names.lookup nh with
    | none => fib
    | some name => (fib.updateH nh name []).1

/-- `RemoveUnmarked`. -/
def removeUnmarked (order : List ℕ) : Fib N :=
  (rangeOrder fib.prefixes.keys order).foldl removeIfUnmarked fib

/-- `register`: names and entries by hash. -/
def register (acc : FinMap ℕ N × FinMap ℕ (List FibEntry)) (call : Registration N) :
    FinMap ℕ N × FinMap ℕ (List FibEntry) :=
  let nameH := hash call.name
  (acc.1.insert nameH call.name,
    call.entries.foldl (fun fibEntries fe =>
      fibEntries.insert nameH ((fibEntries.lookup nameH).getD [] ++ [fe])) acc.2)

/-- The body of the loop over the entries in `updateFib`. -/
def updateAndMark (names : FinMap ℕ N) (fibEntries : FinMap ℕ (List FibEntry)) (fib : Fib N)
    (nameH : ℕ) : Fib N :=
  match names.lookup nameH with
  | none => fib
  | some name =>
    let updated := fib.updateH nameH name ((fibEntries.lookup nameH).getD [])
    if updated.2 then updated.1.markH nameH else updated.1

/-- `updateFib`. -/
def updateFib (round : FibRound N) : Fib N :=
  let (names, fibEntries) := round.registered.foldl (register hash) (∅, ∅)
  ((rangeOrder fibEntries.keys round.updateOrder).foldl (updateAndMark names fibEntries)
    fib.unmarkAll).removeUnmarked round.removeOrder

end Fib

/-! ### Merging -/

/-- The cost of a face, in a list with an entry for each face. -/
def costAt (entries : List FibEntry) (face : ℕ) : Option ℕ :=
  (find FibEntry.faceId entries face).map FibEntry.cost

/-- The cost that a face had. -/
def prevAt (entries : List FibEntry) (face : ℕ) : Option ℕ :=
  (find FibEntry.faceId entries face).map FibEntry.prevCost

variable (newEntries : List FibEntry)

/-- The lowest of the costs that are desired for a face. -/
def leastCost (face : ℕ) : ℕ :=
  newEntries.foldr (fun e least => if e.faceId = face then min e.cost least else least)
    costPfxInfinity

/-- Faces are distinct. -/
abbrev Distinct (entries : List FibEntry) : Prop := KeyedList.Distinct FibEntry.faceId entries

variable {new : FibEntry} {entries : List FibEntry} {face : ℕ}

lemma mergeEntry_eq :
    mergeEntry new entries = upsert FibEntry.faceId
      { new with prevCost := costPfxInfinity }
      (fun old => { old with cost := min new.cost old.cost }) entries := by
  induction entries with
  | nil => rfl
  | cons old rest ih =>
    rw [mergeEntry, upsert, ih]

lemma find_mergeEntry :
    find FibEntry.faceId (mergeEntry new entries) face
      = if new.faceId = face then
          some ((find FibEntry.faceId entries face).elim
            { new with prevCost := costPfxInfinity }
            fun old => { old with cost := min new.cost old.cost })
        else find FibEntry.faceId entries face := by
  rw [mergeEntry_eq]
  exact find_upsert fun _ h => h

lemma costAt_mergeEntry (hnew : new.cost < costPfxInfinity) :
    (costAt (mergeEntry new entries) face).getD costPfxInfinity
      = if new.faceId = face then min new.cost ((costAt entries face).getD costPfxInfinity)
        else (costAt entries face).getD costPfxInfinity := by
  rw [costAt, costAt, find_mergeEntry]
  split_ifs
  · cases find FibEntry.faceId entries face with
    | none => exact (min_eq_left hnew.le).symm
    | some old => rfl
  · rfl

lemma prevAt_mergeEntry :
    (prevAt (mergeEntry new entries) face).getD costPfxInfinity
      = (prevAt entries face).getD costPfxInfinity := by
  rw [prevAt, prevAt, find_mergeEntry]
  split_ifs
  · cases find FibEntry.faceId entries face <;> rfl
  · rfl

lemma distinct_mergeEntries {oldEntries : List FibEntry} (h : Distinct oldEntries)
    (newEntries : List FibEntry) : Distinct (mergeEntries oldEntries newEntries) := by
  refine foldlRecOn (motive := Distinct) newEntries _ h fun entries hentries new _ => ?_
  split_ifs
  · exact hentries
  · rw [mergeEntry_eq]
    exact hentries.upsert fun _ h => h

lemma prevAt_mergeEntries (oldEntries newEntries : List FibEntry) (face : ℕ) :
    (prevAt (mergeEntries oldEntries newEntries) face).getD costPfxInfinity
      = (prevAt oldEntries face).getD costPfxInfinity := by
  refine foldlRecOn (motive := fun entries => (prevAt entries face).getD costPfxInfinity
    = (prevAt oldEntries face).getD costPfxInfinity) newEntries _ rfl
    fun entries hentries new _ => ?_
  split_ifs
  · exact hentries
  · rw [prevAt_mergeEntry, hentries]

lemma leastCost_cons {newEntries : List FibEntry} :
    leastCost (new :: newEntries) face
      = if new.faceId = face then min new.cost (leastCost newEntries face)
        else leastCost newEntries face := rfl

lemma le_leastCost_iff {c : ℕ} : c ≤ leastCost entries face
    ↔ c ≤ costPfxInfinity ∧ ∀ e ∈ entries, e.faceId = face → c ≤ e.cost := by
  induction entries with
  | nil => simp [leastCost]
  | cons e entries ih =>
    rw [leastCost_cons, forall_mem_cons, and_left_comm, ← ih]
    split_ifs with hface <;> simp [hface]

lemma leastCost_le (face : ℕ) :
    leastCost newEntries face ≤ costPfxInfinity := (le_leastCost_iff.mp le_rfl).1

/-- Merging leaves the lowest cost. -/
lemma costAt_mergeEntries (face : ℕ) : ∀ oldEntries,
    min costPfxInfinity ((costAt (mergeEntries oldEntries newEntries) face).getD costPfxInfinity)
      = min ((costAt oldEntries face).getD costPfxInfinity) (leastCost newEntries face) := by
  induction newEntries with
  | nil => exact fun oldEntries => min_comm _ _
  | cons new newEntries ih =>
    intro oldEntries
    have hle := leastCost_le newEntries face
    change min costPfxInfinity ((costAt (mergeEntries _ newEntries) face).getD _) = _
    rw [ih, leastCost_cons]
    dsimp only
    by_cases hinf : costPfxInfinity ≤ new.cost
    · rw [if_pos hinf, min_eq_right (hle.trans hinf), ite_self]
    · rw [if_neg hinf, costAt_mergeEntry (not_le.mp hinf)]
      split_ifs
      · rw [min_comm new.cost, min_assoc]
      · rfl

/-! ### The forwarder -/

section Forwarder

variable {N : Type*} [DecidableEq N]

/-- A command at the forwarder, which has a cost for each name and face. -/
def FibCmd.exec (table : N → ℕ → Option ℕ) : FibCmd N → N → ℕ → Option ℕ
  | .register name faceId cost => fun name' face =>
    if name' = name ∧ face = faceId then some cost else table name' face
  | .unregister name faceId => fun name' face =>
    if name' = name ∧ face = faceId then none else table name' face

/-- Commands in order, on an empty table. -/
def replay (cmds : List (FibCmd N)) : N → ℕ → Option ℕ := cmds.foldl FibCmd.exec fun _ _ => none

lemma exec_unregister {name name' : N} {face : ℕ} :
    ∀ table : N → ℕ → Option ℕ,
      (entries.map fun e => FibCmd.unregister name e.faceId).foldl FibCmd.exec table name' face
        = if name' = name ∧ face ∈ entries.map FibEntry.faceId then none else table name' face := by
  induction entries with
  | nil => simp
  | cons e entries ih =>
    intro table
    rw [map_cons, foldl_cons, ih, FibCmd.exec, map_cons]
    simp only [mem_cons]
    by_cases hname : name' = name <;> by_cases hface : face = e.faceId <;> simp [hname, hface]

lemma exec_register {name name' : N} {face : ℕ} (h : Distinct entries) : ∀ table : N → ℕ → Option ℕ,
      (entries.map fun e => FibCmd.register name e.faceId e.cost).foldl FibCmd.exec table name' face
        = if name' = name then (costAt entries face).or (table name' face)
          else table name' face := by
  induction entries with
  | nil => simp [costAt]
  | cons e entries ih =>
    intro table
    obtain ⟨hfresh, hrest⟩ := nodup_cons.mp h
    rw [map_cons, foldl_cons, ih hrest, FibCmd.exec]
    by_cases hname : name' = name
    · by_cases hface : face = e.faceId
      · subst hface
        simp [hname, costAt, find_cons, find_eq_none.mpr hfresh]
      · simp [hname, hface, costAt, find_cons, Ne.symm hface]
    · simp [hname]

/-- The entries that are kept, the unregistered and the registered ones bring the forwarder from the
old costs to the new ones. -/
lemma exec_update {name name' : N} {face : ℕ} {merged : List FibEntry} (h : Distinct merged)
    {table : N → ℕ → Option ℕ} {old : Option ℕ} (hold : table name face = old)
    (hbelow : ∀ c ∈ old, c < costPfxInfinity)
    (hprev : (prevAt merged face).getD costPfxInfinity = old.getD costPfxInfinity) :
    let final := merged.filter fun e => e.cost < costPfxInfinity
    (((merged.filter fun e => costPfxInfinity ≤ e.cost).map
        (fun e => FibCmd.unregister name e.faceId))
      ++ (final.filter fun e => e.cost ≠ e.prevCost).map
        (fun e => FibCmd.register name e.faceId e.cost)).foldl FibCmd.exec table name' face
      = if name' = name then costAt final face else table name' face := by
  intro final
  have hfinal : Distinct final := h.sublist (filter_sublist.map _)
  rw [foldl_append, exec_register (hfinal.sublist (filter_sublist.map _)),
    exec_unregister]
  by_cases hname : name' = name
  · subst hname
    simp only [if_true, true_and, costAt, find_filter hfinal, ← isSome_find,
      final, find_filter h]
    cases hfind : find FibEntry.faceId merged face with
    | none =>
      rw [prevAt, hfind] at hprev
      cases old with
      | none => simp [hold]
      | some c => exact absurd hprev.symm (hbelow c rfl).ne
    | some e =>
      rw [prevAt, hfind] at hprev
      by_cases hinf : costPfxInfinity ≤ e.cost
      · simp [Option.filter, hinf, not_lt.mpr hinf]
      · by_cases hsame : e.cost = e.prevCost
        · -- no command: the forwarder has this cost
          have hcost : old = some e.cost := by
            cases old with
            | none => exact absurd (hsame.trans hprev) (not_le.mp hinf).ne
            | some c => exact congrArg some (hprev.symm.trans hsame.symm)
          simp [Option.filter, hinf, not_le.mp hinf, ← hsame, hold, hcost]
        · simp [Option.filter, hinf, not_le.mp hinf, hsame]
  · simp [hname]

end Forwarder

/-! ### Updates of one name -/

namespace Fib

variable {N : Type*} {hash : N → ℕ} {fib : Fib N} {nameH : ℕ}

/-- The entries of a name. -/
def entriesOf (fib : Fib N) (nameH : ℕ) : List FibEntry := (fib.prefixes.lookup nameH).getD []

/-- Old entries and new ones, merged. -/
def merged (fib : Fib N) (nameH : ℕ) (newEntries : List FibEntry) : List FibEntry :=
  mergeEntries ((fib.entriesOf nameH).map FibEntry.expired) newEntries

/-- The entries that an update leaves. -/
def final (fib : Fib N) (nameH : ℕ) (newEntries : List FibEntry) : List FibEntry :=
  (fib.merged nameH newEntries).filter fun e => e.cost < costPfxInfinity

/-- Replaying the commands gives the prefixes; they are under the hashes of their names, with one
entry for each face. -/
structure Ok [DecidableEq N] (hash : N → ℕ) (fib : Fib N) : Prop where
  named : ∀ {nh es}, fib.prefixes.lookup nh = some es → ∃ name, fib.names.lookup nh = some name
  keyed : ∀ {nh name}, fib.names.lookup nh = some name → hash name = nh
  nonempty : ∀ {nh es}, fib.prefixes.lookup nh = some es → es ≠ []
  distinct : ∀ nh, Distinct (fib.entriesOf nh)
  below : ∀ nh, ∀ e ∈ fib.entriesOf nh, e.cost < costPfxInfinity
  replayed : ∀ name face, replay fib.sent name face = costAt (fib.entriesOf (hash name)) face

variable {newEntries : List FibEntry}

lemma distinct_merged (h : Distinct (fib.entriesOf nameH)) :
    Distinct (fib.merged nameH newEntries) := by
  exact distinct_mergeEntries (h.map FibEntry.expired fun _ => rfl) newEntries

/-- An update leaves the lowest cost of each face. -/
lemma costAt_final (h : Distinct (fib.entriesOf nameH)) (newEntries : List FibEntry) (face : ℕ) :
    costAt (fib.final nameH newEntries) face
      = if leastCost newEntries face < costPfxInfinity then some (leastCost newEntries face)
        else none := by
  have hmerged := costAt_mergeEntries newEntries face ((fib.entriesOf nameH).map FibEntry.expired)
  have hold : (costAt ((fib.entriesOf nameH).map FibEntry.expired) face).getD costPfxInfinity
      = costPfxInfinity := by
    rw [costAt, find_map FibEntry.expired fun _ => rfl]
    cases find _ (fib.entriesOf nameH) face <;> rfl
  rw [hold, min_eq_right (leastCost_le newEntries face), ← merged, costAt] at hmerged
  rw [costAt, final, find_filter (distinct_merged h)]
  cases hfind : find FibEntry.faceId (fib.merged nameH newEntries) face with
  | none =>
    rw [hfind] at hmerged
    rw [← hmerged]
    rfl
  | some e =>
    rw [hfind] at hmerged
    simp only [map_some, getD_some] at hmerged
    by_cases hlt : e.cost < costPfxInfinity
    · rw [min_eq_right hlt.le] at hmerged
      simp [Option.filter, hlt, ← hmerged]
    · rw [min_eq_left (not_lt.mp hlt)] at hmerged
      simp [Option.filter, hlt, ← hmerged]

/-- The names while a name is updated. -/
def namesWith (fib : Fib N) (nameH : ℕ) (name : N) : FinMap ℕ N :=
  if nameH ∈ fib.names then fib.names else fib.names.insert nameH name

/-- The commands of an update, after the earlier ones. -/
def sentWith (fib : Fib N) (nameH : ℕ) (name : N) (newEntries : List FibEntry) : List (FibCmd N) :=
  fib.sent
    ++ ((fib.merged nameH newEntries).filter fun e => costPfxInfinity ≤ e.cost).map
      (fun e => .unregister name e.faceId)
    ++ ((fib.final nameH newEntries).filter fun e => e.cost ≠ e.prevCost).map
      (fun e => .register name e.faceId e.cost)

lemma updateH_of_nonempty (h : fib.final nameH newEntries ≠ []) (name : N) :
    fib.updateH nameH name newEntries
      = (⟨fib.namesWith nameH name, fib.prefixes.insert nameH (fib.final nameH newEntries),
          fib.mark, fib.sentWith nameH name newEntries⟩, true) :=
  if_pos (length_pos_iff.mpr h)

lemma updateH_of_empty (h : fib.final nameH newEntries = []) (name : N) :
    fib.updateH nameH name newEntries
      = (⟨(fib.namesWith nameH name).erase nameH, fib.prefixes.erase nameH, fib.mark.erase nameH,
          fib.sentWith nameH name newEntries⟩, false) :=
  if_neg fun hlen => length_pos_iff.mp hlen h

lemma sent_updateH (fib : Fib N) {name : N} :
    (fib.updateH nameH name newEntries).1.sent = fib.sentWith nameH name newEntries := by
  by_cases h : fib.final nameH newEntries = []
  · rw [updateH_of_empty h]
  · rw [updateH_of_nonempty h]

lemma lookup_updateH (fib : Fib N) (nameH : ℕ) (name : N) (newEntries : List FibEntry) (nh : ℕ) :
    (fib.updateH nameH name newEntries).1.prefixes.lookup nh
      = if nh = nameH then
          if fib.final nameH newEntries = [] then none else some (fib.final nameH newEntries)
        else fib.prefixes.lookup nh := by
  by_cases h : fib.final nameH newEntries = []
  · rw [updateH_of_empty h, AList.lookup_erase_eq, if_pos h]
  · rw [updateH_of_nonempty h, AList.lookup_insert_eq, if_neg h]

lemma entriesOf_updateH (fib : Fib N) (nameH : ℕ) (name : N) (newEntries : List FibEntry)
    (nh : ℕ) :
    (fib.updateH nameH name newEntries).1.entriesOf nh
      = if nh = nameH then fib.final nameH newEntries else fib.entriesOf nh := by
  rw [entriesOf, lookup_updateH]
  split_ifs with hnh h
  · exact h.symm
  · rfl
  · rfl

lemma lookup_names_updateH (fib : Fib N) {name : N} {nh : ℕ} :
    (fib.updateH nameH name newEntries).1.names.lookup nh
      = if nh = nameH then
          if fib.final nameH newEntries = [] then none
          else some ((fib.names.lookup nameH).getD name)
        else fib.names.lookup nh := by
  have hwith : (fib.namesWith nameH name).lookup nh
      = if nh = nameH then some ((fib.names.lookup nameH).getD name)
        else fib.names.lookup nh := by
    by_cases hmem : nameH ∈ fib.names
    · obtain ⟨old, hold⟩ := AList.mem_iff_lookup.mp hmem
      rw [namesWith, if_pos hmem, hold]
      split_ifs with hnh
      exacts [hnh ▸ hold, rfl]
    · rw [namesWith, if_neg hmem, AList.lookup_insert_eq, AList.lookup_eq_none.mpr hmem]
      rfl
  by_cases h : fib.final nameH newEntries = []
  · rw [updateH_of_empty h, AList.lookup_erase_eq, hwith, if_pos h]
    split_ifs <;> rfl
  · rw [updateH_of_nonempty h, hwith, if_neg h]

section Update

variable [DecidableEq N]

lemma ok_updateH (hinj : Function.Injective hash) (hok : fib.Ok hash) (name : N)
    (newEntries : List FibEntry) : (fib.updateH (hash name) name newEntries).1.Ok hash := by
  have hfinal : Distinct (fib.final (hash name) newEntries) :=
    (distinct_merged (hok.distinct _)).sublist (filter_sublist.map _)
  refine
    { named := ?_
      keyed := ?_
      nonempty := ?_
      distinct := ?_
      below := ?_
      replayed := ?_ }
  · intro nh es hlookup
    rw [lookup_updateH] at hlookup
    rw [lookup_names_updateH]
    split_ifs at hlookup ⊢
    · exact ⟨_, rfl⟩
    · exact hok.named hlookup
  · intro nh name' hlookup
    rw [lookup_names_updateH] at hlookup
    split_ifs at hlookup with hnh
    · rw [hnh]
      cases hold : fib.names.lookup (hash name) with
      | none =>
        rw [hold] at hlookup
        rw [← some.inj hlookup, getD_none]
      | some old =>
        rw [hold] at hlookup
        exact hok.keyed (hold.trans hlookup)
    · exact hok.keyed hlookup
  · intro nh es hlookup
    rw [lookup_updateH] at hlookup
    split_ifs at hlookup with hnh hempty
    · rwa [← some.inj hlookup]
    · exact hok.nonempty hlookup
  · intro nh
    rw [entriesOf_updateH]
    split_ifs
    · exact hfinal
    · exact hok.distinct nh
  · intro nh e he
    rw [entriesOf_updateH] at he
    split_ifs at he
    · exact of_decide_eq_true (mem_filter.mp he).2
    · exact hok.below nh e he
  · intro name' face
    have hprev : (prevAt (fib.merged (hash name) newEntries) face).getD costPfxInfinity
        = (costAt (fib.entriesOf (hash name)) face).getD costPfxInfinity := by
      rw [merged, prevAt_mergeEntries, prevAt, costAt, find_map FibEntry.expired fun _ => rfl]
      cases find _ (fib.entriesOf (hash name)) face <;> rfl
    have hbelow : ∀ c ∈ costAt (fib.entriesOf (hash name)) face, c < costPfxInfinity := by
      intro c hc
      obtain ⟨e, he, rfl⟩ := map_eq_some_iff.mp hc
      exact hok.below _ e (mem_of_find he).1
    rw [entriesOf_updateH, sent_updateH, replay, sentWith, append_assoc, foldl_append]
    refine (exec_update (distinct_merged (hok.distinct _))
      (hok.replayed name face) hbelow hprev).trans ?_
    by_cases hname : name' = name
    · rw [if_pos hname, if_pos (congrArg hash hname)]
      rfl
    · rw [if_neg hname, if_neg fun h => hname (hinj h)]
      exact hok.replayed name' face

end Update

end Fib

end Mars.Dv
