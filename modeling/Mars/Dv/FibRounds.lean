import Mars.Dv.Fib

/-!
Rounds of `updateFib`.

* `desired`: the entries that a round registers for a name; `registered_spec`: the maps hold them;
* `foldl_updateAndMark`: the names with desired entries are updated and marked;
* `foldl_removeIfUnmarked`: the other names are removed;
* `commands_reproduce_fib`.
-/

namespace Mars.Dv

open List AList Option Function Fib Steps

variable {N : Type*} [DecidableEq N] {hash : N → ℕ}

/-- The entries that are registered for a name. -/
def desired (calls : List (Registration N)) (name : N) : List FibEntry :=
  (calls.filter fun call => call.name = name).flatMap Registration.entries

/-- The costs that are desired for a name and a face, and that are not infinite. -/
def FibRound.costs (round : FibRound N) (name : N) (face : ℕ) : Set ℕ :=
  {c | c < costPfxInfinity ∧ ∃ call ∈ round.registered, call.name = name
    ∧ ∃ fe ∈ call.fes, fe.faceId = face ∧ (fe.cost + call.cost) % 2 ^ 64 = c}

/-! ### What is registered -/

omit [DecidableEq N] in
lemma lookup_foldl_append {nameH nh : ℕ} {fes : List FibEntry} :
    ∀ fibEntries : FinMap ℕ (List FibEntry),
      ((fes.foldl (fun fibEntries fe =>
        fibEntries.insert nameH ((fibEntries.lookup nameH).getD [] ++ [fe])) fibEntries).lookup
          nh).getD []
        = if nh = nameH then (fibEntries.lookup nameH).getD [] ++ fes
          else (fibEntries.lookup nh).getD [] := by
  induction fes with
  | nil =>
    intro fibEntries
    split_ifs with hnh
    · rw [hnh, append_nil]
      rfl
    · rfl
  | cons fe fes ih =>
    intro fibEntries
    rw [foldl_cons, ih]
    split_ifs with hnh
    · rw [lookup_insert, getD_some, append_assoc]
      rfl
    · rw [lookup_insert_ne hnh]

omit [DecidableEq N] in
lemma mem_foldl_append {nameH nh : ℕ} {fes : List FibEntry} :
    ∀ {fibEntries : FinMap ℕ (List FibEntry)},
      nh ∈ fes.foldl (fun fibEntries fe =>
        fibEntries.insert nameH ((fibEntries.lookup nameH).getD [] ++ [fe])) fibEntries →
      nh = nameH ∨ nh ∈ fibEntries := by
  induction fes with
  | nil => exact fun h => .inr h
  | cons fe fes ih =>
    intro fibEntries h
    rcases ih h with hnh | hnh
    · exact .inl hnh
    · exact (mem_insert _).mp hnh

/-- What the maps of a round hold. -/
structure Registered (hash : N → ℕ) (calls : List (Registration N))
    (acc : FinMap ℕ N × FinMap ℕ (List FibEntry)) : Prop where
  keyed : ∀ {nh name}, acc.1.lookup nh = some name → hash name = nh
  named : ∀ {nh}, nh ∈ acc.2 → ∃ name, acc.1.lookup nh = some name
  entries : ∀ name, (acc.2.lookup (hash name)).getD [] = desired calls name

lemma Registered.register (hinj : Injective hash) {calls : List (Registration N)}
    {acc : FinMap ℕ N × FinMap ℕ (List FibEntry)} (h : Registered hash calls acc)
    {call : Registration N} : Registered hash (calls ++ [call]) (register hash acc call) where
  keyed := by
    intro nh name hlookup
    rw [Fib.register, AList.lookup_insert_eq] at hlookup
    split_ifs at hlookup with hnh
    · rw [hnh, some.inj hlookup]
    · exact h.keyed hlookup
  named := by
    intro nh hmem
    rw [Fib.register, AList.lookup_insert_eq]
    split_ifs with hnh
    · exact ⟨_, rfl⟩
    · exact h.named ((mem_foldl_append hmem).resolve_left hnh)
  entries := by
    intro name
    rw [Fib.register, lookup_foldl_append, desired, List.filter_append, List.flatMap_append,
      ← desired]
    by_cases hname : call.name = name
    · rw [if_pos (congrArg hash hname.symm), hname, h.entries]
      simp [hname]
    · rw [if_neg fun heq => hname (hinj heq).symm, h.entries]
      simp [hname]

lemma registered_spec (hinj : Injective hash) (calls : List (Registration N)) :
    Registered hash calls (calls.foldl (register hash) (∅, ∅)) := by
  induction calls using reverseRecOn with
  | nil => exact ⟨fun h => by simp at h, fun h => absurd h (notMem_empty _), fun _ => rfl⟩
  | append_singleton calls call ih =>
    rw [foldl_append]
    exact ih.register hinj

/-! ### Marking -/

namespace Fib

variable {fib : Fib N} {calls : List (Registration N)} {acc : FinMap ℕ N × FinMap ℕ (List FibEntry)}

omit [DecidableEq N] in
lemma lookup_mark_updateH_of_ne {nameH nh : ℕ} (hnh : nh ≠ nameH) (fib : Fib N) {name : N}
    {newEntries : List FibEntry} :
    (fib.updateH nameH name newEntries).1.mark.lookup nh = fib.mark.lookup nh := by
  by_cases h : fib.final nameH newEntries = []
  · rw [updateH_of_empty h, lookup_erase_ne hnh]
  · rw [updateH_of_nonempty h]

lemma Ok.markH (hok : fib.Ok hash) (nameH : ℕ) : (fib.markH nameH).Ok hash := { hok with }

/-- What the loop over the desired entries has done for a name: it has the lowest costs, and is
marked if it has any. -/
structure Updated (calls : List (Registration N)) (name : N) (nameH : ℕ) (fib : Fib N) : Prop where
  costs : ∀ face, costAt (fib.entriesOf nameH) face
    = if leastCost (desired calls name) face < costPfxInfinity then
        some (leastCost (desired calls name) face) else none
  marked : nameH ∈ fib.prefixes → fib.mark.lookup nameH = some true

/-- An update of another name. -/
structure SameAt (nh : ℕ) (fib fib' : Fib N) : Prop where
  prefixes : fib'.prefixes.lookup nh = fib.prefixes.lookup nh
  mark : fib'.mark.lookup nh = fib.mark.lookup nh

omit [DecidableEq N] in
lemma sameAt_updateH {nameH nh : ℕ} (hnh : nh ≠ nameH) (fib : Fib N) (name : N)
    (newEntries : List FibEntry) : SameAt nh fib (fib.updateH nameH name newEntries).1 :=
  ⟨by rw [lookup_updateH, if_neg hnh], lookup_mark_updateH_of_ne hnh fib⟩

lemma Updated.sameAt {name : N} {nameH : ℕ} {fib' : Fib N} (h : Updated calls name nameH fib)
    (hsame : SameAt nameH fib fib') :
    Updated calls name nameH fib' where
  costs face := by
    rw [entriesOf, hsame.prefixes]
    exact h.costs face
  marked hmem := by
    rw [hsame.mark]
    refine h.marked ?_
    rw [AList.mem_iff_lookup] at hmem ⊢
    rwa [hsame.prefixes] at hmem

lemma updateAndMark_spec (hinj : Injective hash) (hacc : Registered hash calls acc)
    (hok : fib.Ok hash) {nameH : ℕ} (hmem : nameH ∈ acc.2) :
    let fib' := updateAndMark acc.1 acc.2 fib nameH
    fib'.Ok hash ∧ (∀ nh ≠ nameH, SameAt nh fib fib')
    ∧ ∀ name, hash name = nameH → Updated calls name nameH fib' := by
  obtain ⟨name, hname⟩ := hacc.named hmem
  obtain rfl := hacc.keyed hname
  have hok' := ok_updateH hinj hok name (desired calls name)
  have hcosts : ∀ face, costAt ((fib.updateH (hash name) name (desired calls name)).1.entriesOf
      (hash name)) face
        = if leastCost (desired calls name) face < costPfxInfinity then
            some (leastCost (desired calls name) face) else none := by
    intro face
    rw [entriesOf_updateH, if_pos rfl, costAt_final (hok.distinct _)]
  have hother : ∀ nh ≠ hash name,
      SameAt nh fib (fib.updateH (hash name) name (desired calls name)).1 :=
    fun nh hnh => sameAt_updateH hnh fib name _
  rw [updateAndMark, hname, hacc.entries]
  dsimp only
  by_cases hempty : fib.final (hash name) (desired calls name) = []
  · have hfalse : (fib.updateH (hash name) name (desired calls name)).2 = false := by
      rw [updateH_of_empty hempty]
    rw [hfalse]
    refine ⟨hok', hother, fun name' heq => ?_⟩
    obtain rfl := hinj heq
    refine ⟨hcosts, fun hin => ?_⟩
    obtain ⟨es, hes⟩ := AList.mem_iff_lookup.mp hin
    rw [if_neg Bool.false_ne_true, lookup_updateH, if_pos rfl, if_pos hempty] at hes
    exact absurd hes (by simp)
  · have htrue : (fib.updateH (hash name) name (desired calls name)).2 = true := by
      rw [updateH_of_nonempty hempty]
    rw [htrue, if_pos rfl]
    refine ⟨hok'.markH _, fun nh hnh => ⟨(hother nh hnh).prefixes, ?_⟩, fun name' heq => ?_⟩
    · rw [← (hother nh hnh).mark]
      exact lookup_insert_ne hnh
    · obtain rfl := hinj heq
      exact ⟨hcosts, fun _ => lookup_insert _⟩

/-- The loop over the desired entries. -/
lemma foldl_updateAndMark (hinj : Injective hash) (hacc : Registered hash calls acc) {keys : List ℕ}
    (hkeys : ∀ nameH ∈ keys, nameH ∈ acc.2) :
    ∀ {fib : Fib N}, fib.Ok hash →
      let fib' := keys.foldl (updateAndMark acc.1 acc.2) fib
      fib'.Ok hash ∧ (∀ nh ∉ keys, SameAt nh fib fib')
      ∧ ∀ name, hash name ∈ keys → Updated calls name (hash name) fib' := by
  induction keys with
  | nil => exact fun hok => ⟨hok, fun _ _ => ⟨rfl, rfl⟩, fun _ h => absurd h not_mem_nil⟩
  | cons nameH keys ih =>
    intro fib hok
    obtain ⟨hok', hother, hupdated⟩ := updateAndMark_spec hinj hacc hok
      (hkeys nameH mem_cons_self)
    obtain ⟨hok'', hother', hupdated'⟩ := ih (fun k hk => hkeys k (mem_cons_of_mem _ hk)) hok'
    refine ⟨hok'', fun nh hnh => ?_, fun name hname => ?_⟩
    · obtain ⟨hne, hnotin⟩ := ne_and_not_mem_of_not_mem_cons hnh
      have h₁ := hother nh hne
      have h₂ := hother' nh hnotin
      exact ⟨h₂.prefixes.trans h₁.prefixes, h₂.mark.trans h₁.mark⟩
    · by_cases hin : hash name ∈ keys
      · exact hupdated' name hin
      · have hhead : hash name = nameH := (mem_cons.mp hname).resolve_right hin
        subst hhead
        exact (hupdated name rfl).sameAt (hother' _ hin)

/-! ### Removing -/

omit [DecidableEq N] in
lemma final_nil (fib : Fib N) {nameH : ℕ} : fib.final nameH [] = [] := by
  rw [final, merged, mergeEntries, List.foldl_nil, List.filter_map]
  simp [Function.comp_def, FibEntry.expired]

lemma removeIfUnmarked_spec (hinj : Injective hash) (hok : fib.Ok hash) {key : ℕ} :
    (fib.removeIfUnmarked key).Ok hash ∧ (∀ nh ≠ key, SameAt nh fib (fib.removeIfUnmarked key))
    ∧ (fib.removeIfUnmarked key).entriesOf key
      = if fib.mark.lookup key = some true then fib.entriesOf key else [] := by
  rw [removeIfUnmarked]
  split_ifs with hmark
  · exact ⟨hok, fun _ _ => ⟨rfl, rfl⟩, rfl⟩
  · cases hname : fib.names.lookup key with
    | none =>
      refine ⟨hok, fun _ _ => ⟨rfl, rfl⟩, ?_⟩
      cases hlookup : fib.prefixes.lookup key with
      | none => exact congrArg (getD · []) hlookup
      | some es =>
        obtain ⟨name, hsome⟩ := hok.named hlookup
        exact absurd (hname.symm.trans hsome) (by simp)
    | some name =>
      obtain rfl := hok.keyed hname
      refine ⟨ok_updateH hinj hok name [], fun nh hnh => sameAt_updateH hnh fib name [], ?_⟩
      rw [entriesOf_updateH, if_pos rfl, final_nil]

/-- The loop that removes what is not marked. -/
lemma foldl_removeIfUnmarked (hinj : Injective hash) {keys : List ℕ}
    (hnodup : keys.Nodup) : ∀ {fib : Fib N}, fib.Ok hash →
      (keys.foldl removeIfUnmarked fib).Ok hash
      ∧ ∀ nh, (keys.foldl removeIfUnmarked fib).entriesOf nh
        = if nh ∈ keys ∧ fib.mark.lookup nh ≠ some true then [] else fib.entriesOf nh := by
  induction keys with
  | nil => exact fun hok => ⟨hok, fun nh => by simp⟩
  | cons key keys ih =>
    intro fib hok
    obtain ⟨hfresh, hnodup⟩ := nodup_cons.mp hnodup
    obtain ⟨hok', hother, hremoved⟩ := removeIfUnmarked_spec hinj hok
    obtain ⟨hok'', hentries⟩ := ih hnodup hok'
    refine ⟨hok'', fun nh => ?_⟩
    rw [foldl_cons, hentries]
    by_cases hnh : nh = key
    · subst hnh
      rw [if_neg fun h => hfresh h.1, hremoved]
      by_cases hmark : fib.mark.lookup nh = some true <;> simp [hmark]
    · rw [(hother nh hnh).mark, entriesOf, (hother nh hnh).prefixes]
      simp only [mem_cons, hnh, false_or]
      rfl

lemma ok_new : (new : Fib N).Ok hash where
  named h := by simp [new] at h
  keyed h := by simp [new] at h
  nonempty h := by simp [new] at h
  distinct _ := nodup_nil
  below _ _ h := absurd h not_mem_nil
  replayed _ _ := rfl

omit [DecidableEq N] in
lemma entriesOf_of_notMem {nameH : ℕ} (h : nameH ∉ fib.prefixes) : fib.entriesOf nameH = [] := by
  rw [entriesOf, lookup_eq_none.mpr h]
  rfl

/-- A round leaves the lowest desired costs. -/
lemma updateFib_spec (hinj : Injective hash) (hok : fib.Ok hash) {round : FibRound N} :
    (fib.updateFib hash round).Ok hash
    ∧ ∀ name face, costAt ((fib.updateFib hash round).entriesOf (hash name)) face
      = if leastCost (desired round.registered name) face < costPfxInfinity then
          some (leastCost (desired round.registered name) face) else none := by
  have hacc := registered_spec hinj round.registered
  set acc := round.registered.foldl (register hash) (∅, ∅)
  have hunmarked : fib.unmarkAll.Ok hash := { hok with }
  have hkeys : ∀ nameH ∈ rangeOrder acc.2.keys round.updateOrder, nameH ∈ acc.2 :=
    fun _ h => mem_rangeOrder.mp h
  obtain ⟨hok', hother, hupdated⟩ := foldl_updateAndMark hinj hacc hkeys hunmarked
  set fib' := (rangeOrder acc.2.keys round.updateOrder).foldl (updateAndMark acc.1 acc.2)
    fib.unmarkAll
  obtain ⟨hok'', hentries⟩ := foldl_removeIfUnmarked hinj
    (nodup_rangeOrder (keys_nodup fib'.prefixes)) hok'
  refine ⟨hok'', fun name face => ?_⟩
  change costAt (((rangeOrder fib'.prefixes.keys round.removeOrder).foldl removeIfUnmarked
    fib').entriesOf (hash name)) face = _
  rw [hentries]
  by_cases hmem : hash name ∈ acc.2
  · obtain ⟨hcosts, hmarked⟩ := hupdated name (mem_rangeOrder.mpr hmem)
    rw [← hcosts face, if_neg fun h => h.2 (hmarked (mem_rangeOrder.mp h.1))]
  · -- nothing is desired for this name, and it is not marked
    have hdesired : desired round.registered name = [] := by
      rw [← hacc.entries, lookup_eq_none.mpr hmem]
      rfl
    have hmark : fib'.mark.lookup (hash name) ≠ some true := by
      rw [(hother (hash name) fun h => hmem (mem_rangeOrder.mp h)).mark]
      simp [unmarkAll]
    have hleast : ¬ leastCost [] face < costPfxInfinity := lt_irrefl _
    rw [hdesired, if_neg hleast]
    split_ifs with h
    · rfl
    · rw [entriesOf_of_notMem fun hin => h ⟨mem_rangeOrder.mpr hin, hmark⟩]
      rfl

end Fib

/-! ### The lowest cost -/

lemma leastCost_spec {entries : List FibEntry} {face : ℕ} :
    (∀ e ∈ entries, e.faceId = face → leastCost entries face ≤ e.cost)
    ∧ (leastCost entries face < costPfxInfinity →
      ∃ e ∈ entries, e.faceId = face ∧ e.cost = leastCost entries face) := by
  have hle := (le_leastCost_iff.mp (le_refl (leastCost entries face))).2
  refine ⟨hle, fun hlt => ?_⟩
  by_contra hnone
  push Not at hnone
  refine Nat.lt_irrefl _ (le_leastCost_iff.mpr ⟨hlt, fun e he hface => ?_⟩)
  exact lt_of_le_of_ne (hle e he hface) (hnone e he hface).symm

lemma mem_costs {round : FibRound N} {name : N} {face c : ℕ} :
    c ∈ round.costs name face ↔ c < costPfxInfinity
      ∧ ∃ e ∈ desired round.registered name, e.faceId = face ∧ e.cost = c := by
  simp only [FibRound.costs, Set.mem_ofPred_eq, desired, List.mem_flatMap, List.mem_filter,
    decide_eq_true_eq, Registration.entries, List.mem_map]
  constructor
  · rintro ⟨hlt, call, hcall, hname, fe, hfe, hface, hc⟩
    exact ⟨hlt, _, ⟨call, ⟨hcall, hname⟩, fe, hfe, rfl⟩, hface, hc⟩
  · rintro ⟨hlt, _, ⟨call, ⟨hcall, hname⟩, fe, hfe, rfl⟩, hface, hc⟩
    exact ⟨hlt, call, hcall, hname, fe, hfe, hface, hc⟩

lemma isLeast_costs {round : FibRound N} {name : N} {face c : ℕ} :
    (if leastCost (desired round.registered name) face < costPfxInfinity then
        some (leastCost (desired round.registered name) face) else none) = some c
      ↔ IsLeast (round.costs name face) c := by
  obtain ⟨hle, hex⟩ := leastCost_spec
  constructor
  · intro h
    split_ifs at h with hlt
    obtain rfl := some.inj h
    refine ⟨mem_costs.mpr ⟨hlt, hex hlt⟩, fun c hc => ?_⟩
    obtain ⟨-, e, he, hface, rfl⟩ := mem_costs.mp hc
    exact hle e he hface
  · rintro ⟨hmem, hleast⟩
    obtain ⟨hlt, e, he, hface, rfl⟩ := mem_costs.mp hmem
    have hlow := hle e he hface
    rw [if_pos (hlow.trans_lt hlt)]
    have hback := hleast (mem_costs.mpr ⟨hlow.trans_lt hlt, hex (hlow.trans_lt hlt)⟩)
    exact congrArg some (le_antisymm hlow hback)

omit [DecidableEq N] in
lemma costAt_eq_some {entries : List FibEntry} (h : Distinct entries) {face c : ℕ} :
    costAt entries face = some c ↔ ∃ e ∈ entries, e.faceId = face ∧ e.cost = c := by
  simp only [costAt, map_eq_some_iff, KeyedList.find_eq_some h, and_assoc]

/-- **The commands sent to the forwarder reproduce the FIB.**  Replaying them gives the prefixes,
and after every round these are the lowest desired costs of each face. -/
theorem commands_reproduce_fib (hinj : Injective hash) (rounds : List (FibRound N)) :
    let fib := run (updateFib hash) new rounds
    (∀ name face c, replay fib.sent name face = some c
      ↔ ∃ e ∈ fib.entriesOf (hash name), e.faceId = face ∧ e.cost = c)
    ∧ (∀ nh ∈ fib.prefixes, ∃ name, hash name = nh)
    ∧ (∀ nh, ((fib.entriesOf nh).map FibEntry.faceId).Nodup)
    ∧ ∀ round ∈ rounds.getLast?, ∀ name,
      (hash name ∈ fib.prefixes ↔ ∃ face, (round.costs name face).Nonempty)
      ∧ ∀ face c, (∃ e ∈ fib.entriesOf (hash name), e.faceId = face ∧ e.cost = c)
        ↔ IsLeast (round.costs name face) c := by
  intro fib
  have hoks : ∀ rounds, (run (updateFib hash) new rounds).Ok hash :=
    run_invariant (I := Ok hash) (fun _ round h => (updateFib_spec hinj h).1) ok_new
  have hok : fib.Ok hash := hoks rounds
  refine ⟨fun name face c => ?_, fun nh hnh => ?_, hok.distinct, fun round hround name => ?_⟩
  · rw [hok.replayed, costAt_eq_some (hok.distinct _)]
  · obtain ⟨es, hes⟩ := AList.mem_iff_lookup.mp hnh
    obtain ⟨name, hname⟩ := hok.named hes
    exact ⟨name, hok.keyed hname⟩
  · obtain ⟨before, rfl⟩ := getLast?_eq_some_iff.mp hround
    have hcosts : ∀ face c, (∃ e ∈ fib.entriesOf (hash name), e.faceId = face ∧ e.cost = c)
        ↔ IsLeast (round.costs name face) c := by
      intro face c
      have hlast : fib = (run (updateFib hash) new before).updateFib hash round :=
        run_concat _ _ _
      rw [← costAt_eq_some (hok.distinct _), ← isLeast_costs,
        ← (updateFib_spec hinj (hoks before)).2 name face, hlast]
    refine ⟨⟨fun hmem => ?_, ?_⟩, hcosts⟩
    · obtain ⟨es, hes⟩ := AList.mem_iff_lookup.mp hmem
      obtain ⟨e, he⟩ := exists_mem_of_ne_nil es (hok.nonempty hes)
      have hentries : fib.entriesOf (hash name) = es := congrArg (getD · []) hes
      exact ⟨e.faceId, e.cost, ((hcosts e.faceId e.cost).mp ⟨e, hentries ▸ he, rfl, rfl⟩).1⟩
    · rintro ⟨face, hnonempty⟩
      classical
      have hleast : IsLeast (round.costs name face) (Nat.find hnonempty) :=
        ⟨Nat.find_spec hnonempty, fun c hc => Nat.find_min' hnonempty hc⟩
      obtain ⟨e, he, -⟩ := (hcosts face _).mpr hleast
      by_contra hnot
      exact absurd (entriesOf_of_notMem hnot ▸ he) not_mem_nil

/-- A name with a face that is registered twice; then one face is gone, another is cheaper, and a
name is new. -/
def twoRounds : List (FibRound ℕ) :=
  [⟨[⟨5, [⟨1, 10, 0⟩, ⟨2, 7, 0⟩], 1⟩, ⟨5, [⟨1, 3, 0⟩], 0⟩], [], []⟩,
    ⟨[⟨5, [⟨2, 7, 0⟩], 0⟩, ⟨6, [⟨1, 4, 0⟩], 2⟩], [6], []⟩]

theorem commands_reproduce_fib_twoRounds :
    let fib := run (updateFib id) new twoRounds
    replay fib.sent 5 2 = some 7 ∧ replay fib.sent 5 1 = none ∧ replay fib.sent 6 1 = some 6
    ∧ IsLeast (FibRound.costs ⟨[⟨5, [⟨2, 7, 0⟩], 0⟩, ⟨6, [⟨1, 4, 0⟩], 2⟩], [6], []⟩ 6 1) 6 := by
  obtain ⟨hreplay, -, -, hlast⟩ := commands_reproduce_fib injective_id twoRounds
  have hsix : replay (run (updateFib id) new twoRounds).sent 6 1 = some 6 := by
    decide +kernel
  refine ⟨by decide +kernel, by decide +kernel, hsix, ?_⟩
  exact ((hlast _ rfl 6).2 1 6).mp ((hreplay 6 1 6).mp hsix)

end Mars.Dv
