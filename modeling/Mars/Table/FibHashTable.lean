import Mars.Encoding.Name
import Mars.Table.Fib
import Mathlib.Logic.Equiv.List

/-!
The FIB-strategy table as a hash table.

The entries are found by the hashes of their names.  For the prefixes of a fixed length `m`, the
virtual names, a bound on the length of the names below is kept, which is where a lookup starts.

* `Indexed`: a name is known below its virtual name, and is not longer than the bound;
* `Holds`: the nexthops and strategies of the entries, as in the tree; a name that holds something
  is indexed;
* `table_refines`: the hash table is a table of the specification, so it answers as the tree does
  (`fib_tables_agree`).
-/

namespace Mars

open Function LongestPrefix List Encodable

variable {κ : Type*}

/-- What is computed of a name: its hash and its bytes. -/
structure NameKeys (κ : Type*) where
  hash : List κ → ℕ
  bytes : List κ → Bytes

/-- `FibStrategyHashTable`: a virtual name has the bound `md` and the set of the names below it,
with their lengths. -/
structure FibStrategyHashTable (κ : Type*) where
  m : ℕ
  realTable : ℕ → Option (FibEntry κ)
  virtTable : ℕ → Option ℕ
  virtTableNames : ℕ → Option (Finset (Bytes × ℕ))

namespace FibStrategyHashTable

variable (keys : NameKeys κ) (f : FibStrategyHashTable κ)

/-- `newFibStrategyTableHashTable`. -/
def new (m : ℕ) (defaultStrategy : List κ) : FibStrategyHashTable κ where
  m := m
  realTable := update (fun _ => none) (keys.hash []) (some ⟨[], [], some defaultStrategy⟩)
  virtTable := fun _ => none
  virtTableNames := fun _ => none

variable (virtNameHash : ℕ) (name : List κ)

/-- The entry of the prefix of a length. -/
def prefixEntry (pfx : ℕ) : Option (FibEntry κ) :=
  f.realTable (keys.hash (name.take pfx))

/-- `findLongestPrefixMatchEnc`. -/
def findLongestPrefixMatch : Option (FibEntry κ) :=
  if name.length ≤ f.m then scanDown (f.prefixEntry keys name) 0 name.length
  else
    match f.virtTable (keys.hash (name.take f.m)) with
    | some md =>
      (scanDown (f.prefixEntry keys name) (f.m + 1) (min md name.length)).or
        (scanDown (f.prefixEntry keys name) 0 f.m)
    | none => scanDown (f.prefixEntry keys name) 0 f.m

/-- The part of `insertEntryEnc` that is for a virtual name. -/
def insertVirtual : FibStrategyHashTable κ :=
  let md := (f.virtTable virtNameHash).getD name.length
  let names := (f.virtTableNames virtNameHash).getD ∅
  { f with
    virtTable := update f.virtTable virtNameHash (some (max md name.length))
    virtTableNames := update f.virtTableNames virtNameHash
      (some (insert (keys.bytes name, name.length) (names.filter (·.1 ≠ keys.bytes name)))) }

/-- `insertEntryEnc`. -/
def insertEntry : FibStrategyHashTable κ :=
  let nameHash := keys.hash name
  let f :=
    { f with
      realTable := update f.realTable nameHash
        (some ((f.realTable nameHash).getD ⟨name, [], none⟩)) }
  if name.length = f.m then f.insertVirtual keys nameHash name
  else if f.m < name.length then f.insertVirtual keys (keys.hash (name.take f.m)) name
  else f

/-- The part of `pruneTables` that takes a name out of those of its virtual name. -/
def pruneNames : FibStrategyHashTable κ :=
  match f.virtTable virtNameHash, f.virtTableNames virtNameHash with
  | some _, some names =>
    if ∃ item ∈ names, item.1 = keys.bytes name then
      let rest := names.filter (·.1 ≠ keys.bytes name)
      { f with
        virtTableNames := update f.virtTableNames virtNameHash
          (if rest = ∅ then none else some rest) }
    else f
  | _, _ => f

/-- The part of `pruneTables` for the bound of a virtual name: it goes with the last name, but is
never lowered. -/
def pruneBound : FibStrategyHashTable κ :=
  match f.virtTable virtNameHash with
  | none => f
  | some md =>
    if name.length = md then
      match f.virtTableNames virtNameHash with
      | none => { f with virtTable := update f.virtTable virtNameHash none }
      | some names =>
        { f with
          virtTable := update f.virtTable virtNameHash
            (some (max md (names.sup Prod.snd))) }
    else f

/-- `pruneTables`. -/
def pruneTables (entry : FibEntry κ) : FibStrategyHashTable κ :=
  if entry.nexthops = [] ∧ entry.strategy = none then
    let f := { f with realTable := update f.realTable (keys.hash entry.name) none }
    if f.m ≤ entry.name.length then
      let virtNameHash := keys.hash (entry.name.take f.m)
      (f.pruneNames keys virtNameHash entry.name).pruneBound virtNameHash entry.name
    else f
  else f

/-- The entry of a name is changed in place. -/
def setEntry (entry : FibEntry κ) : FibStrategyHashTable κ :=
  { f with realTable := update f.realTable (keys.hash name) (some entry) }

/-- `FindNextHopsEnc`; `none` if the hashes of the prefixes are indexed out of range. -/
def findNextHops : Option (List FibNextHopEntry) :=
  match f.findLongestPrefixMatch keys name with
  | none => some []
  | some entry =>
    if name.length < entry.name.length then none
    else some ((scanDown (fun pfx => (f.prefixEntry keys name pfx).bind fun val =>
      if val.nexthops = [] then none else some val.nexthops) 0 entry.name.length).getD [])

/-- `FindStrategyEnc`; `none` if the hashes of the prefixes are indexed out of range. -/
def findStrategy : Option (Option (List κ)) :=
  match f.findLongestPrefixMatch keys name with
  | none => some none
  | some entry =>
    if name.length < entry.name.length then none
    else some (scanDown (fun pfx => (f.prefixEntry keys name pfx).bind (·.strategy)) 0
      entry.name.length)

/-- The entry that `insertEntryEnc` returns is changed. -/
def upsert (g : FibEntry κ → FibEntry κ) : FibStrategyHashTable κ :=
  let f := f.insertEntry keys name
  match f.realTable (keys.hash name) with
  | none => f
  | some entry => f.setEntry keys name (g entry)

/-- `InsertNextHopEnc`. -/
def insertNextHop (nexthop : Face) (cost : ℕ) : FibStrategyHashTable κ :=
  f.upsert keys name fun entry => { entry with nexthops := insertHop nexthop cost entry.nexthops }

/-- `ClearNextHopsEnc`. -/
def clearNextHops : FibStrategyHashTable κ :=
  match f.realTable (keys.hash name) with
  | none => f
  | some entry =>
    let entry := { entry with nexthops := [] }
    (f.setEntry keys name entry).pruneTables keys entry

/-- `RemoveNextHopEnc`: the last nexthop moves to the place of the one that is removed. -/
def removeNextHop (nexthop : Face) : FibStrategyHashTable κ :=
  match f.realTable (keys.hash name) with
  | none => f
  | some entry =>
    match entry.nexthops.find? (·.nexthop = nexthop) with
    | none => f
    | some nh =>
      let entry := { entry with nexthops := swapRemove entry.nexthops nh }
      (f.setEntry keys name entry).pruneTables keys entry

/-- `SetStrategyEnc`. -/
def setStrategy (strategy : List κ) : FibStrategyHashTable κ :=
  f.upsert keys name fun entry => { entry with strategy := some strategy }

/-- `UnSetStrategyEnc`. -/
def unSetStrategy : FibStrategyHashTable κ :=
  match f.realTable (keys.hash name) with
  | none => f
  | some entry =>
    let entry := { entry with strategy := none }
    (f.setEntry keys name entry).pruneTables keys entry

/-- The table after an operation. -/
def step : FibOp κ → FibStrategyHashTable κ
  | .insertNextHop name nexthop cost => f.insertNextHop keys name nexthop cost
  | .clearNextHops name => f.clearNextHops keys name
  | .removeNextHop name nexthop => f.removeNextHop keys name nexthop
  | .setStrategy name strategy => f.setStrategy keys name strategy
  | .unSetStrategy name => f.unSetStrategy keys name

/-- The table after a sequence of operations. -/
def run (m : ℕ) (defaultStrategy : List κ) (ops : List (FibOp κ)) : FibStrategyHashTable κ :=
  ops.foldl (step keys) (new keys m defaultStrategy)

/-! ### Virtual names -/

/-- The hashes of the names in `S` and the bytes of those in `T` are different; the operations are
for names in `T`, and the lookups for names in `S`. -/
structure Distinct (keys : NameKeys κ) (S T : Set (List κ)) : Prop where
  hash : Set.InjOn keys.hash S
  bytes : Set.InjOn keys.bytes T
  sub : T ⊆ S
  root : [] ∈ T
  closed : ∀ a ∈ S, ∀ n, a.take n ∈ S

/-- A name that is long enough is known below its virtual name, and is not longer than the
bound. -/
def Indexed : Prop :=
  f.m ≤ name.length → ∃ md names,
    f.virtTable (keys.hash (name.take f.m)) = some md ∧ name.length ≤ md
      ∧ f.virtTableNames (keys.hash (name.take f.m)) = some names
      ∧ (keys.bytes name, name.length) ∈ names

variable {keys : NameKeys κ} {S T : Set (List κ)} {f f' : FibStrategyHashTable κ}
  {name other : List κ} {virtNameHash : ℕ}

lemma Distinct.hash_ne (hkeys : Distinct keys S T) (hother : other ∈ S) (hname : name ∈ T)
    (hne : other ≠ name) : keys.hash other ≠ keys.hash name :=
  hkeys.hash.ne hother (hkeys.sub hname) hne

lemma indexed_insertVirtual_self (f : FibStrategyHashTable κ) :
    (f.insertVirtual keys (keys.hash (name.take f.m)) name).Indexed keys name := by
  intro _
  refine ⟨_, _, update_self _ _ _, le_max_right _ _, update_self _ _ _, ?_⟩
  exact Finset.mem_insert_self _ _

lemma Indexed.insertVirtual (h : f.Indexed keys other) (hne : keys.bytes other ≠ keys.bytes name) :
    (f.insertVirtual keys virtNameHash name).Indexed keys other := by
  intro hlen
  obtain ⟨md, names, hmd, hle, hnames, hin⟩ := h hlen
  unfold FibStrategyHashTable.insertVirtual
  dsimp only
  rcases eq_or_ne (keys.hash (other.take f.m)) virtNameHash with rfl | hhash
  · refine ⟨_, _, update_self _ _ _, ?_, update_self _ _ _, ?_⟩
    · rw [hmd, Option.getD_some]
      exact le_max_of_le_left hle
    · rw [hnames, Option.getD_some]
      exact Finset.mem_insert_of_mem (Finset.mem_filter.mpr ⟨hin, hne⟩)
  · exact ⟨md, names, (update_of_ne hhash _ _).trans hmd, hle,
      (update_of_ne hhash _ _).trans hnames, hin⟩

lemma Indexed.pruneNames (h : f.Indexed keys other) (hne : keys.bytes other ≠ keys.bytes name) :
    (f.pruneNames keys virtNameHash name).Indexed keys other := by
  unfold FibStrategyHashTable.pruneNames
  split
  · rename_i md' names' _ hnames'
    split_ifs
    · intro hlen
      obtain ⟨md, names, hmd, hle, hnames, hin⟩ := h hlen
      rcases eq_or_ne (keys.hash (other.take f.m)) virtNameHash with rfl | hhash
      · obtain rfl : names = names' := Option.some_inj.mp (hnames.symm.trans hnames')
        have hrest : (keys.bytes other, other.length)
            ∈ names.filter (·.1 ≠ keys.bytes name) := Finset.mem_filter.mpr ⟨hin, hne⟩
        refine ⟨md, _, hmd, hle, (update_self _ _ _).trans (if_neg ?_), hrest⟩
        exact Finset.ne_empty_of_mem hrest
      · exact ⟨md, names, hmd, hle, (update_of_ne hhash _ _).trans hnames, hin⟩
    · exact h
  · exact h

lemma Indexed.pruneBound (h : f.Indexed keys other) :
    (f.pruneBound virtNameHash name).Indexed keys other := by
  unfold FibStrategyHashTable.pruneBound
  split
  · exact h
  · rename_i md' hmd'
    split_ifs with hlength
    · split
      all_goals
        rename_i hnames'
        intro hlen
        obtain ⟨md, names, hmd, hle, hnames, hin⟩ := h hlen
        rcases eq_or_ne (keys.hash (other.take f.m)) virtNameHash with rfl | hhash
      · -- there is another name left
        rw [hnames] at hnames'
        cases hnames'
      · exact ⟨md, names, (update_of_ne hhash _ _).trans hmd, hle, hnames, hin⟩
      · obtain rfl : md = md' := Option.some_inj.mp (hmd.symm.trans hmd')
        exact ⟨_, names, update_self _ _ _, le_max_of_le_left hle, hnames, hin⟩
      · exact ⟨md, names, (update_of_ne hhash _ _).trans hmd, hle, hnames, hin⟩
    · exact h

/-- `insertEntryEnc` makes an entry if there is none, and indexes the name. -/
lemma insertEntry_spec (f : FibStrategyHashTable κ) :
    (f.insertEntry keys name).realTable = update f.realTable (keys.hash name)
        (some ((f.realTable (keys.hash name)).getD ⟨name, [], none⟩))
      ∧ (f.insertEntry keys name).Indexed keys name
      ∧ ∀ other, keys.bytes other ≠ keys.bytes name → f.Indexed keys other →
        (f.insertEntry keys name).Indexed keys other := by
  unfold insertEntry
  dsimp only
  set g : FibStrategyHashTable κ :=
    { f with
      realTable := update f.realTable (keys.hash name)
        (some ((f.realTable (keys.hash name)).getD ⟨name, [], none⟩)) } with hg
  have hcongr : ∀ other, f.Indexed keys other → g.Indexed keys other := fun _ h => h
  split_ifs with heq hlt
  · have htake : keys.hash name = keys.hash (name.take g.m) := by
      rw [take_of_length_le heq.le]
    rw [htake]
    exact ⟨rfl, indexed_insertVirtual_self g,
      fun other hne h => (hcongr other h).insertVirtual hne⟩
  · exact ⟨rfl, indexed_insertVirtual_self g,
      fun other hne h => (hcongr other h).insertVirtual hne⟩
  · exact ⟨rfl, fun hle => absurd (Nat.lt_of_le_of_ne hle (Ne.symm heq)) hlt, fun _ _ h => h⟩

/-- `pruneTables` removes an entry that holds nothing; other names stay indexed. -/
lemma pruneTables_spec (f : FibStrategyHashTable κ) {entry : FibEntry κ} :
    (f.pruneTables keys entry).realTable
        = (if entry.nexthops = [] ∧ entry.strategy = none then
          update f.realTable (keys.hash entry.name) none else f.realTable)
      ∧ (∀ other, keys.bytes other ≠ keys.bytes entry.name → f.Indexed keys other →
        (f.pruneTables keys entry).Indexed keys other)
      ∧ (¬(entry.nexthops = [] ∧ entry.strategy = none) → f.pruneTables keys entry = f) := by
  have hbound : ∀ (g : FibStrategyHashTable κ) (virtNameHash : ℕ) (name : List κ),
      (g.pruneBound virtNameHash name).realTable = g.realTable := by
    intro g virtNameHash name
    unfold pruneBound
    split
    · rfl
    · split_ifs
      · split <;> rfl
      · rfl
  have hnames : ∀ (g : FibStrategyHashTable κ) (virtNameHash : ℕ) (name : List κ),
      (g.pruneNames keys virtNameHash name).realTable = g.realTable := by
    intro g virtNameHash name
    unfold pruneNames
    split
    · split_ifs <;> rfl
    · rfl
  unfold pruneTables
  split_ifs with hempty
  · set g : FibStrategyHashTable κ :=
      { f with realTable := update f.realTable (keys.hash entry.name) none } with hg
    have hcongr : ∀ other, f.Indexed keys other → g.Indexed keys other := fun _ h => h
    dsimp only
    split_ifs
    · refine ⟨?_, fun other hne h => ?_, fun hnot => absurd hempty hnot⟩
      · rw [hbound, hnames]
      · exact ((hcongr other h).pruneNames hne).pruneBound
    · exact ⟨rfl, fun _ _ h => h, fun hnot => absurd hempty hnot⟩
  · exact ⟨rfl, fun _ _ h => h, fun _ => rfl⟩

/-! ### What the entries hold -/

/-- The entry of a name with these nexthops and this strategy: there is none if it has neither. -/
def entryOf (nexthops : List κ → List FibNextHopEntry) (strategy : List κ → Option (List κ))
    (name : List κ) : Option (FibEntry κ) :=
  if nexthops name = [] ∧ strategy name = none then none
  else some ⟨name, nexthops name, strategy name⟩

/-- The entries have these nexthops and strategies, and a name that has an entry is indexed. -/
structure Holds (keys : NameKeys κ) (S T : Set (List κ)) (f : FibStrategyHashTable κ)
    (nexthops : List κ → List FibNextHopEntry) (strategy : List κ → Option (List κ)) : Prop where
  real : ∀ name ∈ S, f.realTable (keys.hash name) = entryOf nexthops strategy name
  held : ∀ name, entryOf nexthops strategy name ≠ none → name ∈ T ∧ f.Indexed keys name

variable {nexthops : List κ → List FibNextHopEntry} {strategy : List κ → Option (List κ)}
  {hops : List FibNextHopEntry} {value : Option (List κ)} {entry : FibEntry κ}

lemma entryOf_eq_some (h : entryOf nexthops strategy name = some entry) :
    entry = ⟨name, nexthops name, strategy name⟩ := by
  unfold entryOf at h
  split_ifs at h
  exact (Option.some_inj.mp h).symm

lemma entry_eta (h : entry.name = name) : entry = ⟨name, entry.nexthops, entry.strategy⟩ := by
  rw [← h]

variable [DecidableEq κ]

lemma entryOf_update_of_ne (hne : other ≠ name) :
    entryOf (update nexthops name hops) (update strategy name value) other
      = entryOf nexthops strategy other := by
  unfold entryOf
  rw [update_of_ne hne, update_of_ne hne]

lemma entryOf_update_self :
    entryOf (update nexthops name hops) (update strategy name value) name
      = if hops = [] ∧ value = none then none else some ⟨name, hops, value⟩ := by
  unfold entryOf
  rw [update_self, update_self]

lemma holds_new (hkeys : Distinct keys S T) {m : ℕ} (hm : 1 ≤ m) {defaultStrategy : List κ} :
    Holds keys S T (new keys m defaultStrategy) (fun _ => [])
      (update (fun _ => none) [] (some defaultStrategy)) := by
  have hother : ∀ name : List κ, name ≠ [] →
      entryOf (fun _ => []) (update (fun _ => none) [] (some defaultStrategy)) name = none :=
    fun name hne => by simp [entryOf, update_of_ne hne]
  refine ⟨fun name hname => ?_, fun name hname => ?_⟩
  · rcases eq_or_ne name [] with rfl | hne
    · simp [new, entryOf]
    · rw [hother name hne]
      simp [new, hkeys.hash_ne hname hkeys.root hne]
  · obtain rfl : name = [] := by
      by_contra hne
      exact hname (hother name hne)
    exact ⟨hkeys.root, fun hlen => absurd (hm.trans hlen) (Nat.not_succ_le_zero 0)⟩

section Held

variable (hkeys : Distinct keys S T) (h : Holds keys S T f nexthops strategy)

section Changes

variable (hname : name ∈ T)

include h hname

/-- The entry of one name changes, and the others stay where they are. -/
lemma Holds.change
    (hreal : ∀ other ∈ S, other ≠ name →
      f'.realTable (keys.hash other) = f.realTable (keys.hash other))
    (hself : f'.realTable (keys.hash name)
      = if hops = [] ∧ value = none then none else some ⟨name, hops, value⟩)
    (hindexed : ∀ other ∈ T, other ≠ name → f.Indexed keys other → f'.Indexed keys other)
    (hown : ¬(hops = [] ∧ value = none) → f'.Indexed keys name) :
    Holds keys S T f' (update nexthops name hops) (update strategy name value) := by
  refine ⟨fun other hother => ?_, fun other hother => ?_⟩
  · rcases eq_or_ne other name with rfl | hne
    · rw [hself, entryOf_update_self]
    · rw [hreal other hother hne, entryOf_update_of_ne hne]
      exact h.real other hother
  · rcases eq_or_ne other name with rfl | hne
    · refine ⟨hname, hown fun hnone => hother ?_⟩
      rw [entryOf_update_self, if_pos hnone]
    · rw [entryOf_update_of_ne hne] at hother
      obtain ⟨hin, hind⟩ := h.held other hother
      exact ⟨hin, hindexed other hin hne hind⟩

include hkeys

omit [DecidableEq κ] in
/-- The entry of a name, if it holds something. -/
lemma Holds.lookup :
    f.realTable (keys.hash name) = none ∧ nexthops name = [] ∧ strategy name = none
      ∨ f.realTable (keys.hash name) = some ⟨name, nexthops name, strategy name⟩ := by
  rw [h.real name (hkeys.sub hname), entryOf]
  split_ifs with hempty
  · exact .inl ⟨rfl, hempty⟩
  · exact .inr rfl

/-- An entry is made if there is none, and then changed. -/
lemma Holds.upsert {g : FibEntry κ → FibEntry κ}
    (hg : (g ⟨name, nexthops name, strategy name⟩).name = name)
    (hheld : ¬((g ⟨name, nexthops name, strategy name⟩).nexthops = []
      ∧ (g ⟨name, nexthops name, strategy name⟩).strategy = none)) :
    Holds keys S T (f.upsert keys name g)
      (update nexthops name (g ⟨name, nexthops name, strategy name⟩).nexthops)
      (update strategy name (g ⟨name, nexthops name, strategy name⟩).strategy) := by
  obtain ⟨hreal, hself, hother⟩ := insertEntry_spec f
  have hgot : (f.realTable (keys.hash name)).getD ⟨name, [], none⟩
      = ⟨name, nexthops name, strategy name⟩ := by
    rcases h.lookup hkeys hname with ⟨hnone, hn, hs⟩ | hsome
    · rw [hnone, Option.getD_none, hn, hs]
    · rw [hsome, Option.getD_some]
  rw [hgot] at hreal
  have hupsert : f.upsert keys name g
      = (f.insertEntry keys name).setEntry keys name (g ⟨name, nexthops name, strategy name⟩) := by
    rw [FibStrategyHashTable.upsert]
    simp only [hreal, update_self]
  rw [hupsert]
  refine h.change hname (fun other hin hne => ?_) ?_ (fun other hin hne hind => ?_) fun _ => ?_
  · have hhash := hkeys.hash_ne hin hname hne
    simp only [setEntry, hreal]
    rw [update_of_ne hhash, update_of_ne hhash]
  · rw [if_neg hheld]
    exact (update_self _ _ _).trans (congrArg some (entry_eta hg))
  · exact hother other (fun heq => hne (hkeys.bytes hin hname heq)) hind
  · exact hself

/-- The entry of a name is changed, and removed if it holds nothing. -/
lemma Holds.edit (hentry : f.realTable (keys.hash name) ≠ none)
    (hops : List FibNextHopEntry) (value : Option (List κ)) :
    Holds keys S T ((f.setEntry keys name ⟨name, hops, value⟩).pruneTables keys
      ⟨name, hops, value⟩) (update nexthops name hops) (update strategy name value) := by
  obtain ⟨hreal, hindexed, hkept⟩ :=
    pruneTables_spec (f.setEntry keys name ⟨name, hops, value⟩)
  rw [h.real name (hkeys.sub hname)] at hentry
  refine h.change hname (fun other hin hne => ?_) ?_ (fun other hin hne hind => ?_) fun hnot => ?_
  · have hhash := hkeys.hash_ne hin hname hne
    rw [hreal]
    split_ifs
    · rw [update_of_ne hhash]
      exact update_of_ne hhash _ _
    · exact update_of_ne hhash _ _
  · rw [hreal]
    split_ifs
    · exact update_self _ _ _
    · exact update_self _ _ _
  · exact hindexed other (fun heq => hne (hkeys.bytes hin hname heq)) hind
  · rw [hkept hnot]
    exact (h.held name hentry).2

/-- The entry of a name is changed if there is one, and a missing one would not change. -/
lemma Holds.editEntry {g : FibEntry κ → FibEntry κ}
    (hg : (g ⟨name, nexthops name, strategy name⟩).name = name)
    (hempty : g ⟨name, [], none⟩ = ⟨name, [], none⟩) :
    Holds keys S T
      (match f.realTable (keys.hash name) with
        | none => f
        | some entry => (f.setEntry keys name (g entry)).pruneTables keys (g entry))
      (update nexthops name (g ⟨name, nexthops name, strategy name⟩).nexthops)
      (update strategy name (g ⟨name, nexthops name, strategy name⟩).strategy) := by
  rcases h.lookup hkeys hname with ⟨hnone, hn, hs⟩ | hsome
  · rw [hnone, hn, hs, hempty, ← hn, update_eq_self, ← hs, update_eq_self]
    exact h
  · have hchange := h.edit hkeys hname (by simp [hsome])
      (g ⟨name, nexthops name, strategy name⟩).nexthops
      (g ⟨name, nexthops name, strategy name⟩).strategy
    rw [hsome]
    rwa [← entry_eta hg] at hchange

end Changes

omit [DecidableEq κ] in
/-- The nexthop that `RemoveNextHopEnc` finds is that of the face. -/
lemma perm_swapRemove_face {nh : FibNextHopEntry} {nexthop : Face}
    (h : hops.find? (·.nexthop = nexthop) = some nh) :
    (swapRemove hops nh).Perm (hops.eraseP (·.nexthop = nexthop)) := by
  obtain ⟨hface, as, bs, rfl, hbefore⟩ := find?_eq_some_iff_append.mp h
  have hout : nh ∉ as := fun hin => by simpa [hface] using hbefore nh hin
  have herase : (as ++ nh :: bs).eraseP (·.nexthop = nexthop) = (as ++ nh :: bs).erase nh := by
    rw [eraseP_append_right _ (by simpa using hbefore),
      eraseP_cons_of_pos (by simpa using hface),
      erase_append_right _ hout, erase_cons_head]
  rw [herase]
  exact perm_swapRemove (mem_append_right _ mem_cons_self)

include hkeys h

/-- **Every operation changes the table as the specification says.** -/
lemma Holds.step {spec : FibSpec κ} (hspec : spec.Lists nexthops strategy) {op : FibOp κ}
    (hop : op.name ∈ T) :
    ∃ nexthops' strategy', Holds keys S T (f.step keys op) nexthops' strategy'
      ∧ (spec.step op).Lists nexthops' strategy' := by
  have hstrategy := hspec.strategy
  cases op with
  | insertNextHop name nexthop cost =>
    have hput := h.upsert hkeys (show name ∈ T from hop) (g := fun entry =>
      { entry with nexthops := insertHop nexthop cost entry.nexthops }) rfl
      fun hempty => insertHop_ne_nil hempty.1
    rw [update_eq_self] at hput
    exact ⟨_, _, hput, hspec.update name ((hspec.nexthops name).insertHop)⟩
  | clearNextHops name =>
    have hchange := h.editEntry hkeys (show name ∈ T from hop)
      (g := fun entry => { entry with nexthops := [] }) rfl rfl
    rw [update_eq_self] at hchange
    exact ⟨_, _, hchange, hspec.update name lists_nil⟩
  | removeNextHop name nexthop =>
    have hlists := hspec.nexthops name
    have hkeep : (nexthops name).find? (·.nexthop = nexthop) = none →
        (spec.step (.removeNextHop name nexthop)).Lists nexthops strategy := by
      intro hno
      have hsame : (nexthops name).eraseP (·.nexthop = nexthop) = nexthops name :=
        eraseP_of_forall_not (by simpa using find?_eq_none.mp hno)
      have hupdate := hspec.update name (hlists.erase (Perm.of_eq hsame.symm))
      rwa [update_eq_self] at hupdate
    simp only [FibStrategyHashTable.step, FibStrategyHashTable.removeNextHop]
    rcases h.lookup hkeys (show name ∈ T from hop) with ⟨hnone, hnil, -⟩ | hsome
    · rw [hnone]
      exact ⟨nexthops, strategy, h, hkeep (by rw [hnil, find?_nil])⟩
    · rw [hsome]
      dsimp only
      cases hfound : (nexthops name).find? (·.nexthop = nexthop) with
      | none => exact ⟨nexthops, strategy, h, hkeep hfound⟩
      | some nh =>
        have hchange := h.edit hkeys (show name ∈ T from hop) (by simp [hsome])
          (swapRemove (nexthops name) nh) (strategy name)
        rw [update_eq_self] at hchange
        exact ⟨_, _, hchange, hspec.update name (hlists.erase (perm_swapRemove_face hfound))⟩
  | setStrategy name value =>
    have hput := h.upsert hkeys (show name ∈ T from hop) (g := fun entry =>
      { entry with strategy := some value }) rfl fun hempty => Option.some_ne_none _ hempty.2
    rw [update_eq_self] at hput
    exact ⟨_, _, hput, hspec.nexthops, by rw [hstrategy]; rfl⟩
  | unSetStrategy name =>
    have hchange := h.editEntry hkeys (show name ∈ T from hop)
      (g := fun entry => { entry with strategy := none }) rfl rfl
    rw [update_eq_self] at hchange
    exact ⟨_, _, hchange, hspec.nexthops, by rw [hstrategy]; rfl⟩

/-! ### The lookups -/

variable (hname : name ∈ S)

include hname

omit [DecidableEq κ] in
/-- The entry of a prefix. -/
lemma Holds.prefixEntry {pfx : ℕ} :
    f.prefixEntry keys name pfx = entryOf nexthops strategy (name.take pfx) :=
  h.real _ (hkeys.closed name hname pfx)

omit hkeys hname [DecidableEq κ] in
/-- A prefix that is longer than `m` and has an entry is within the bound. -/
lemma Holds.bound {pfx : ℕ} (hm : f.m < pfx)
    (hpfx : pfx ≤ name.length) (hentry : entryOf nexthops strategy (name.take pfx) ≠ none) :
    ∃ md, f.virtTable (keys.hash (name.take f.m)) = some md ∧ pfx ≤ md := by
  have hlen : (name.take pfx).length = pfx := length_take_of_le hpfx
  obtain ⟨md, -, hmd, hle, -⟩ := (h.held _ hentry).2 (hlen.symm ▸ hm.le)
  rw [take_take, Nat.min_eq_left hm.le] at hmd
  exact ⟨md, hmd, hlen ▸ hle⟩

omit [DecidableEq κ] in
/-- **The search over the two ranges finds the longest prefix that has an entry.** -/
lemma Holds.findLongestPrefixMatch :
    f.findLongestPrefixMatch keys name = longestPrefix (entryOf nexthops strategy) name := by
  have hentry : f.prefixEntry keys name = fun pfx => entryOf nexthops strategy (name.take pfx) :=
    funext fun pfx => h.prefixEntry hkeys hname
  have hall := scanDown_take (f := entryOf nexthops strategy) (le_refl name.length)
  rw [take_length] at hall
  rw [FibStrategyHashTable.findLongestPrefixMatch, hentry, ← hall]
  split_ifs with hshort
  · rfl
  · have hm : f.m ≤ name.length := Nat.le_of_not_le hshort
    split
    · rename_i md hmd
      have habove : ∀ pfx, max f.m (min md name.length) < pfx → pfx ≤ name.length →
          entryOf nexthops strategy (name.take pfx) = none := by
        intro pfx hlt hle
        by_contra hne
        obtain ⟨md', hmd', hle'⟩ := h.bound (lt_of_le_of_lt (le_max_left _ _) hlt) hle hne
        rw [hmd, Option.some_inj] at hmd'
        omega
      rw [← scanDown_split hm, scanDown_of_none (max_le hm (min_le_right _ _)) habove]
      rcases le_total (min md name.length) f.m with hle | hle
      · rw [max_eq_left hle, scanDown_of_lt (Nat.lt_succ_of_le hle),
          scanDown_of_lt (Nat.lt_succ_self _)]
      · rw [max_eq_right hle]
    · rename_i hno
      refine (scanDown_of_none hm fun pfx hlt hle => ?_).symm
      by_contra hne
      obtain ⟨md, hmd, -⟩ := h.bound hlt hle hne
      rw [hno] at hmd
      cases hmd

omit [DecidableEq κ] in
/-- The search from the longest entry for one that has what is looked for. -/
lemma Holds.search {β γ : Type*} (k : FibEntry κ → Option β) (g : Option β → γ) :
    (match f.findLongestPrefixMatch keys name with
      | none => some (g none)
      | some entry =>
        if name.length < entry.name.length then none
        else some (g (scanDown (fun pfx => (f.prefixEntry keys name pfx).bind k) 0
          entry.name.length)))
      = some (g (longestPrefix (fun p => (entryOf nexthops strategy p).bind k) name)) := by
  rw [h.findLongestPrefixMatch hkeys hname]
  cases hfind : longestPrefix (entryOf nexthops strategy) name with
  | none =>
    have hall := longestPrefix_eq_none hfind
    have hnil : longestPrefix (fun p => (entryOf nexthops strategy p).bind k) ([] ++ name)
        = longestPrefix (fun p => (entryOf nexthops strategy p).bind k) [] :=
      longestPrefix_append_of_none fun q hq _ => by
        rw [nil_append, hall q hq, Option.bind_none]
    rw [nil_append, longestPrefix_nil, hall [] nil_prefix, Option.bind_none] at hnil
    rw [hnil]
  | some entry =>
    obtain ⟨q, r, rfl, hq, hlong⟩ := longestPrefix_eq_some hfind
    obtain rfl := entryOf_eq_some hq
    have hlen : q.length ≤ (q ++ r).length := by
      rw [length_append]
      exact Nat.le_add_right _ _
    have hscan : (fun pfx => (f.prefixEntry keys (q ++ r) pfx).bind k)
        = fun pfx => (entryOf nexthops strategy ((q ++ r).take pfx)).bind k :=
      funext fun pfx => by rw [h.prefixEntry hkeys hname]
    dsimp only
    rw [if_neg (Nat.not_lt.mpr hlen), hscan,
      scanDown_take (f := fun p => (entryOf nexthops strategy p).bind k) hlen, take_left,
      longestPrefix_append_of_none fun q' hq' hne => ?_]
    rw [hlong q' hq' hne, Option.bind_none]

omit [DecidableEq κ] in
lemma Holds.findNextHops :
    f.findNextHops keys name = some ((longestPrefix (fun p =>
      if nexthops p = [] then none else some (nexthops p)) name).getD []) := by
  have hbind : (fun p => (entryOf nexthops strategy p).bind fun val =>
      if val.nexthops = [] then none else some val.nexthops)
        = fun p => if nexthops p = [] then none else some (nexthops p) := by
    funext p
    unfold entryOf
    split_ifs with hempty hnil hnil
    · rfl
    · exact absurd hempty.1 hnil
    · rw [Option.bind_some, if_pos hnil]
    · rw [Option.bind_some, if_neg hnil]
  rw [← hbind]
  exact h.search hkeys hname _ (·.getD [])

omit [DecidableEq κ] in
lemma Holds.findStrategy :
    f.findStrategy keys name = some (longestPrefix strategy name) := by
  have hbind : (fun p => (entryOf nexthops strategy p).bind (·.strategy)) = strategy := by
    funext p
    unfold entryOf
    split_ifs with hempty
    · exact hempty.2.symm
    · rfl
  have hsearch := h.search hkeys hname (·.strategy) id
  rwa [hbind] at hsearch

end Held

end FibStrategyHashTable

open FibStrategyHashTable in
/-- **The hash table is a table of the specification**, after every sequence of operations. -/
lemma table_refines {keys : NameKeys κ} {S T : Set (List κ)} [DecidableEq κ]
    (hkeys : Distinct keys S T) {m : ℕ} (hm : 1 ≤ m) {defaultStrategy : List κ}
    {ops : List (FibOp κ)} (hops : ∀ op ∈ ops, op.name ∈ T) :
    ∃ nexthops strategy, Holds keys S T (run keys m defaultStrategy ops) nexthops strategy
      ∧ (FibSpec.run defaultStrategy ops).Lists nexthops strategy := by
  induction ops using reverseRecOn with
  | nil => exact ⟨_, _, holds_new hkeys hm, fun _ => lists_nil, rfl⟩
  | append_singleton ops op ih =>
    obtain ⟨nexthops, strategy, hheld, hspec⟩ :=
      ih fun op' hop' => hops op' (mem_append_left _ hop')
    have hop := hops op (mem_append_right _ (mem_singleton_self op))
    rw [run, FibSpec.run, foldl_append, foldl_append]
    exact hheld.step hkeys hspec hop

/-! ### Encoded names -/

/-- The hash of a name is one of its encoding. -/
def encodedKeys (hash : Bytes → ℕ) : NameKeys Component :=
  ⟨fun name => hash (nameInner name), nameBytes⟩

/-- The components of the name are short. -/
def ShortName (name : List Component) : Prop := ∀ c ∈ name, c.Short

instance decidableShortName (name : List Component) : Decidable (ShortName name) :=
  inferInstanceAs (Decidable (∀ c ∈ name, c.Short))

/-- The names that occur: the prefixes of the name that is looked up and of those in the
operations. -/
def Occurring (ops : List (FibOp Component)) (name : List Component) : Set (List Component) :=
  {a | a <+: name ∨ ∃ op ∈ ops, a <+: op.name}

/-- No two names that occur have the same hash. -/
def CollisionFree (hash : Bytes → ℕ) (ops : List (FibOp Component)) (name : List Component) :
    Prop :=
  Set.InjOn (encodedKeys hash).hash (Occurring ops name)

variable {hash : Bytes → ℕ} {ops : List (FibOp Component)} {name : List Component}

/-- For names with short components this only takes a hash without collisions. -/
lemma collisionFree_of_injective (hhash : Injective hash)
    (hops : ∀ op ∈ ops, ShortName op.name) (hname : ShortName name) :
    CollisionFree hash ops name := by
  have hshort : ∀ a ∈ Occurring ops name, ShortName a := by
    rintro a (ha | ⟨op, hop, ha⟩)
    · exact fun c hc => hname c (ha.subset hc)
    · exact fun c hc => hops op hop c (ha.subset hc)
  intro a ha b hb hab
  exact nameInner_injOn (hshort a ha) (hshort b hb) (hhash hab)

lemma distinct_encodedKeys (hfree : CollisionFree hash ops name) :
    FibStrategyHashTable.Distinct (encodedKeys hash) (Occurring ops name)
      {a ∈ Occurring ops name | ShortName a} where
  hash := hfree
  bytes := nameBytes_injOn.mono fun _ ha => ha.2
  sub := fun _ ha => ha.1
  root := ⟨.inl nil_prefix, fun c hc => absurd hc not_mem_nil⟩
  closed := by
    rintro a (ha | ⟨op, hop, ha⟩) n
    · exact .inl ((List.take_prefix n a).trans ha)
    · exact .inr ⟨op, hop, (List.take_prefix n a).trans ha⟩

/-- **Both tables answer as the specification does**, by the longest prefix that has nexthops or a
strategy. -/
theorem fib_tables_agree {m : ℕ} (hm : 1 ≤ m) (hash : Bytes → ℕ)
    (defaultStrategy : List Component) (ops : List (FibOp Component))
    (hops : ∀ op ∈ ops, ShortName op.name) (name : List Component)
    (hfree : CollisionFree hash ops name) :
    let spec := FibSpec.run defaultStrategy ops
    let tree := FibStrategyTree.run defaultStrategy ops
    let table := FibStrategyHashTable.run (encodedKeys hash) m defaultStrategy ops
    (tree.findNextHops name).toFinset = spec.findNextHops name
      ∧ (table.findNextHops (encodedKeys hash) name).map toFinset
        = some (spec.findNextHops name)
      ∧ tree.findStrategy name = spec.findStrategy name
      ∧ table.findStrategy (encodedKeys hash) name = some (spec.findStrategy name) := by
  intro spec tree table
  obtain ⟨nexthops, strategy, htree, hspec⟩ := tree_refines defaultStrategy ops
  have hkeys := distinct_encodedKeys hfree
  obtain ⟨nexthops', strategy', htable, hspec'⟩ :=
    table_refines hkeys hm fun op hop => ⟨.inr ⟨op, hop, prefix_rfl⟩, hops op hop⟩
  have hname : name ∈ Occurring ops name := .inl prefix_rfl
  refine ⟨?_, ?_, ?_, ?_⟩
  · rw [htree.findNextHops, hspec.findNextHops]
  · rw [htable.findNextHops hkeys hname, Option.map_some, hspec'.findNextHops]
  · rw [htree.findStrategy, hspec.strategy]
    rfl
  · rw [htable.findStrategy hkeys hname, hspec'.strategy]
    rfl

/-- A component of one byte. -/
def letter (b : ℕ) : Component := ⟨8, [b]⟩

/-- `/a` and `/a/b` get nexthops, those of `/a/b` are removed, and `/a/b/c` gets a strategy. -/
def nestedRoutes : List (FibOp Component) :=
  [.insertNextHop [letter 97] 1 10, .insertNextHop [letter 97, letter 98] 2 5,
    .removeNextHop [letter 97, letter 98] 2,
    .setStrategy [letter 97, letter 98, letter 99] [letter 115]]

theorem fib_tables_agree_nested :
    let name := [letter 97, letter 98, letter 99, letter 100]
    let table := FibStrategyHashTable.run (encodedKeys Encodable.encode) 2 [letter 48] nestedRoutes
    (FibSpec.run [letter 48] nestedRoutes).findNextHops name = {⟨1, 10⟩}
      ∧ ((FibStrategyTree.run [letter 48] nestedRoutes).findNextHops name).toFinset = {⟨1, 10⟩}
      ∧ (table.findNextHops (encodedKeys encode) name).map toFinset
        = some {⟨1, 10⟩}
      ∧ table.findStrategy (encodedKeys encode) name = some (some [letter 115]) := by
  intro name table
  have hname : ShortName name := by decide
  have hops : ∀ op ∈ nestedRoutes, ShortName op.name := by decide
  have hspec : (FibSpec.run [letter 48] nestedRoutes).findNextHops name = {⟨1, 10⟩} := by decide
  have hstrategy : (FibSpec.run [letter 48] nestedRoutes).findStrategy name
      = some [letter 115] := by decide
  obtain ⟨htree, htable, -, htable'⟩ := fib_tables_agree (m := 2) (by decide) encode
    [letter 48] nestedRoutes hops name
    (collisionFree_of_injective encode_injective hops hname)
  rw [hspec] at htree htable
  rw [hstrategy] at htable'
  exact ⟨hspec, htree, htable, htable'⟩

end Mars
