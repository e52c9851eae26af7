import Mars.Dv.Fib
import Mathlib.Algebra.GroupWithZero.Nat

/-!
The prefix table: what each router announces, and the operation lists that routers publish.

* `PrefixTable.announce`, `PrefixTable.withdraw`: local changes, which publish an operation list if
  the lowest cost of the prefix changes; `PrefixTable.snap`: all of the router's prefixes;
* `PrefixTable.apply`: an operation list that another router published; `lookup_apply` says what it
  leaves of a prefix;
* `apply_changes_only_the_publisher`: which publications leave the prefixes of other routers alone.
-/

namespace Mars.Dv

open List

/-! ### The table -/

/-- `PrefixNextHop`. -/
structure PrefixNextHop where
  face : ℕ
  cost : ℕ
  deriving DecidableEq

/-- `PrefixEntry`. -/
structure PrefixEntry (κ : Type*) where
  name : List κ
  cost : ℕ
  nextHops : List PrefixNextHop := []
  deriving DecidableEq

/-- `PrefixTableRouter`: entries by the TLV of the name. -/
abbrev PrefixSet (κ : Type*) := FinMap (List κ) (PrefixEntry κ)

/-- `PrefixOpAdd`. -/
structure PrefixOpAdd (κ : Type*) where
  name : List κ
  cost : ℕ

/-- `PrefixOpList`. -/
structure PrefixOpList (κ : Type*) where
  exitRouter : Option (List κ)
  reset : Bool := false
  adds : List (PrefixOpAdd κ) := []
  removes : List (List κ) := []

/-- The encoding of operation lists, over components of at most 252 bytes: the length of a longer
one is not read as it is written. -/
structure PrefixCodec (κ W : Type*) where
  val : κ → Bytes
  short : ∀ c, (val c).length ≤ 252
  encode : PrefixOpList κ → W
  parse : W → Option (PrefixOpList κ)
  parse_encode : ∀ ops, parse (encode ops) = some ops

/-- The name of the router, which has at least the last component after that of the network. -/
structure RouterName (κ : Type*) where
  name : List κ
  nonempty : name ≠ []

/-- `PrefixTable`, with what it has published. -/
structure PrefixTable (κ W : Type*) where
  routers : FinMap ℕ (PrefixSet κ)
  published : List W

variable {κ W : Type*} [DecidableEq κ]

namespace PrefixEntry

/-- The lowest cost of the next hops. -/
def minCost (nextHops : List PrefixNextHop) : ℕ :=
  nextHops.foldl (fun cost nh => if nh.cost < cost then nh.cost else cost) (2 ^ 64 - 1)

/-- `computeCost`, and whether the cost changed. -/
def computeCost (e : PrefixEntry κ) : PrefixEntry κ × Bool :=
  if minCost e.nextHops = e.cost then (e, false)
  else ({ e with cost := minCost e.nextHops }, true)

end PrefixEntry

/-- The next hop takes the place of one with the same face, or is added. -/
def setNextHop (nexthop : PrefixNextHop) : List PrefixNextHop → List PrefixNextHop
  | [] => [nexthop]
  | nh :: nextHops =>
    if nh.face = nexthop.face then nexthop :: nextHops else nh :: setNextHop nexthop nextHops

namespace PrefixTable

variable (hash : List κ → ℕ) (codec : PrefixCodec κ W) (parse : W → Option (PrefixOpList κ))
  (own : RouterName κ) (pt : PrefixTable κ W)

/-- The prefixes of a router. -/
def prefixesOf (router : List κ) : PrefixSet κ :=
  (pt.routers.lookup (hash router)).getD ∅

/-- The costs of a router's prefixes. -/
def costOf (router name : List κ) : Option ℕ :=
  ((pt.prefixesOf hash router).lookup name).map PrefixEntry.cost

/-- Change the router's own prefixes. -/
def setMe (prefixes : PrefixSet κ) : PrefixTable κ W :=
  { pt with routers := pt.routers.insert (hash own.name) prefixes }

/-- `publish`. -/
def publish (ops : PrefixOpList κ) : PrefixTable κ W :=
  { pt with published := pt.published ++ [codec.encode ops] }

/-- `Reset`. -/
def reset (pt : PrefixTable κ W) : PrefixTable κ W :=
  (pt.setMe hash own ∅).publish codec { exitRouter := some own.name, reset := true }

/-- `publishEntry`. -/
def publishEntry (key : List κ) : PrefixTable κ W :=
  match (pt.prefixesOf hash own.name).lookup key with
  | none => pt
  | some entry =>
    if entry.cost < costPfxInfinity then
      pt.publish codec { exitRouter := some own.name, adds := [⟨entry.name, entry.cost⟩] }
    else
      (pt.publish codec { exitRouter := some own.name, removes := [entry.name] }).setMe hash own
        ((pt.prefixesOf hash own.name).erase key)

/-- The end of `Announce` and of `Withdraw`: the cost of the changed entry is computed and published
if it is another. -/
def store (key : List κ) (entry : PrefixEntry κ) : PrefixTable κ W :=
  let (entry, dirty) := entry.computeCost
  let pt := pt.setMe hash own ((pt.prefixesOf hash own.name).insert key entry)
  if dirty then pt.publishEntry hash codec own key else pt

/-- `Announce`. -/
def announce (name : List κ) (face cost : ℕ) : PrefixTable κ W :=
  let entry := ((pt.prefixesOf hash own.name).lookup name).getD
    { name, cost := costPfxInfinity }
  pt.store hash codec own name
    { entry with nextHops := setNextHop ⟨face, cost⟩ entry.nextHops }

/-- `Withdraw`. -/
def withdraw (name : List κ) (face : ℕ) : PrefixTable κ W :=
  match (pt.prefixesOf hash own.name).lookup name with
  | none => pt
  | some entry =>
    pt.store hash codec own name
      { entry with nextHops := entry.nextHops.eraseP fun nh => nh.face = face }

/-- The operations of a list on the prefixes of its router. -/
def applyOps (ops : PrefixOpList κ) (prefixes : PrefixSet κ) : PrefixSet κ :=
  let prefixes := if ops.reset then ∅ else prefixes
  let prefixes := ops.adds.foldl (fun prefixes add =>
    prefixes.insert add.name { name := add.name, cost := add.cost }) prefixes
  ops.removes.foldl (fun prefixes name => prefixes.erase name) prefixes

/-- `Apply`, and whether anything changed. -/
def apply (wire : W) : PrefixTable κ W × Bool :=
  match parse wire with
  | none => (pt, false)
  | some ops =>
    match ops.exitRouter with
    | none | some [] => (pt, false)
    | some router =>
      ({ pt with
          routers := pt.routers.insert (hash router) (applyOps ops (pt.prefixesOf hash router)) },
        ops.reset || !ops.adds.isEmpty || !ops.removes.isEmpty)

/-- `Snap`; the loop over the prefixes has some order. -/
def snap (order : List (List κ)) : W :=
  let prefixes := pt.prefixesOf hash own.name
  codec.encode
    { exitRouter := some own.name
      reset := true
      adds := (rangeOrder prefixes.keys order).filterMap fun key =>
        (prefixes.lookup key).map fun entry => ⟨entry.name, entry.cost⟩ }

/-! ### Operation lists -/

variable {hash : List κ → ℕ} {parse : W → Option (PrefixOpList κ)} {pt : PrefixTable κ W}
  {name : List κ}

/-- What an operation list makes of a prefix. -/
def outcome (ops : PrefixOpList κ) (name : List κ) (old : Option (PrefixEntry κ)) :
    Option (PrefixEntry κ) :=
  if name ∈ ops.removes then none
  else (ops.adds.filter fun add => add.name = name).getLast?.elim (if ops.reset then none else old)
    fun add => some { name, cost := add.cost }

lemma lookup_adds {adds : List (PrefixOpAdd κ)} {prefixes : PrefixSet κ} :
    (adds.foldl (fun prefixes add =>
        prefixes.insert add.name { name := add.name, cost := add.cost }) prefixes).lookup name
      = (adds.filter fun add => add.name = name).getLast?.elim (prefixes.lookup name)
        fun add => some { name, cost := add.cost } := by
  induction adds using reverseRecOn with
  | nil => rfl
  | append_singleton adds add ih =>
    rw [foldl_append, foldl_cons, foldl_nil, filter_append, AList.lookup_insert_eq]
    by_cases hname : add.name = name
    · subst hname
      simp
    · rw [if_neg (Ne.symm hname), ih]
      simp [hname]

lemma lookup_removes {removes : List (List κ)} : ∀ prefixes : PrefixSet κ,
    (removes.foldl (fun prefixes name => prefixes.erase name) prefixes).lookup name
      = if name ∈ removes then none else prefixes.lookup name := by
  induction removes with
  | nil => simp
  | cons remove removes ih =>
    intro prefixes
    rw [foldl_cons, ih, AList.lookup_erase_eq]
    by_cases hname : name = remove <;> simp [hname]

variable {ops : PrefixOpList κ}

lemma lookup_applyOps {prefixes : PrefixSet κ} :
    (applyOps ops prefixes).lookup name = outcome ops name (prefixes.lookup name) := by
  rw [applyOps, lookup_removes, lookup_adds, outcome]
  cases ops.reset <;> simp

omit [DecidableEq κ] in
lemma prefixesOf_insert (pt : PrefixTable κ W) {router router' : List κ} {prefixes : PrefixSet κ}
    {published : List W} :
    prefixesOf hash ⟨pt.routers.insert (hash router) prefixes, published⟩ router'
      = if hash router' = hash router then prefixes else pt.prefixesOf hash router' := by
  rw [prefixesOf, AList.lookup_insert_eq]
  split_ifs <;> rfl

/-- An operation list that is accepted. -/
lemma apply_eq {wire : W} {router : List κ} (hparse : parse wire = some ops)
    (hexit : ops.exitRouter = some router) (hrouter : router ≠ []) :
    (pt.apply hash parse wire).1
      = ⟨pt.routers.insert (hash router) (applyOps ops (pt.prefixesOf hash router)),
          pt.published⟩ := by
  rw [apply, hparse]
  cases router with
  | nil => exact absurd rfl hrouter
  | cons c router =>
    dsimp only
    rw [hexit]

/-- What is not accepted changes nothing. -/
lemma apply_of_not_accepted {wire : W}
    (h : ∀ ops router, parse wire = some ops → ops.exitRouter = some router → router = []) :
    (pt.apply hash parse wire).1 = pt := by
  rw [apply]
  cases hparse : parse wire with
  | none => rfl
  | some ops =>
    dsimp only
    cases hexit : ops.exitRouter with
    | none => rfl
    | some router =>
      obtain rfl := h ops router hparse hexit
      rfl

/-- What an accepted operation list does to the prefixes of the routers. -/
lemma lookup_apply {wire : W} {router : List κ} (hparse : parse wire = some ops)
    (hexit : ops.exitRouter = some router) (hrouter : router ≠ []) {router' : List κ} :
    ((pt.apply hash parse wire).1.prefixesOf hash router').lookup name
      = if hash router' = hash router then
          outcome ops name ((pt.prefixesOf hash router').lookup name)
        else (pt.prefixesOf hash router').lookup name := by
  rw [apply_eq hparse hexit hrouter, prefixesOf_insert]
  split_ifs with heq
  · rw [lookup_applyOps, prefixesOf, prefixesOf, heq]
  · rfl

/-! ### Publications of other routers -/

/-- `SvsPub`. -/
structure Publication (κ W : Type*) where
  publisher : List κ
  content : W

variable (hash parse) in
/-- The callback of a subscription to the publisher. -/
def onPublication (pt : PrefixTable κ W) (pub : Publication κ W) : PrefixTable κ W :=
  (pt.apply hash parse pub.content).1

/-- **Which publications change the prefixes of their publisher only.**  Those that are not
accepted, those that name the publisher as exit router, and those that leave the prefixes of the
router they name as they are. -/
theorem apply_changes_only_the_publisher (hash : List κ → ℕ) (parse : W → Option (PrefixOpList κ))
    (pt : PrefixTable κ W) (pub : Publication κ W) :
    (∀ router, hash router ≠ hash pub.publisher → ∀ name,
      ((pt.onPublication hash parse pub).prefixesOf hash router).lookup name
        = (pt.prefixesOf hash router).lookup name)
    ↔ ∀ ops router, parse pub.content = some ops → ops.exitRouter = some router →
      router ≠ [] → hash router = hash pub.publisher
        ∨ ∀ name, outcome ops name ((pt.prefixesOf hash router).lookup name)
          = (pt.prefixesOf hash router).lookup name := by
  constructor
  · intro hkept ops router hparse hexit hrouter
    by_cases heq : hash router = hash pub.publisher
    · exact .inl heq
    · right
      intro name
      have hname := hkept router heq name
      rwa [onPublication, lookup_apply hparse hexit hrouter, if_pos rfl] at hname
  · intro hcond router hne name
    rw [onPublication]
    by_cases haccepted : ∀ ops router, parse pub.content = some ops →
        ops.exitRouter = some router → router = []
    · rw [apply_of_not_accepted haccepted]
    · push Not at haccepted
      obtain ⟨ops, router', hparse, hexit, hrouter⟩ := haccepted
      rw [lookup_apply hparse hexit hrouter]
      split_ifs with heq
      · rcases hcond ops router' hparse hexit hrouter with hsame | hsame
        · exact absurd (heq.trans hsame) hne
        · have := hsame name
          rwa [prefixesOf, ← heq, ← prefixesOf] at this
      · rfl

/-- Operation lists as they are. -/
def plainCodec : PrefixCodec κ (PrefixOpList κ) := ⟨fun _ => [], by simp, id, some, fun _ => rfl⟩

/-- A router `[1]` has announced the prefix `[7]`. -/
def announcedSeven : PrefixTable ℕ (PrefixOpList ℕ) :=
  ((⟨∅, []⟩ : PrefixTable ℕ (PrefixOpList ℕ)).reset sum plainCodec ⟨[1], by decide⟩).announce
    sum plainCodec ⟨[1], by decide⟩ [7] 4 10

/-- A publication of router `[2]` that names `[1]` as exit router removes what `[1]` itself has
announced. -/
theorem publication_resets_another_router :
    announcedSeven.costOf sum [1] [7] = some 10
    ∧ (announcedSeven.onPublication sum some
        ⟨[2], { exitRouter := some [1], reset := true }⟩).costOf sum [1] [7] = none := by
  decide +kernel

end PrefixTable

end Mars.Dv
