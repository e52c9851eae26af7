import Mars.Basic
import Mars.Lib.Trie
import Mars.Lib.PriorityQueue
import Mathlib.Data.Finset.Sort
import Mathlib.Data.Int.ModEq

/-!
The PIT and the content store of a forwarding thread: `pit-cs.go`, `pit-cs-tree.go`,
`pit-cs-pool.go` and `cs-lru.go`.

PIT entries are objects with an identity: `RemoveInterest` clears an entry and puts it into the
pool, and `InsertInterest` may take the same entry out for another name.  The nodes of the name
tree are known by the hashes of the components that lead to them.

* `PitCsTree`: the table; `fillTreeToPrefix`, `insertInterest`, `removeInterest`: its PIT;
* `findInterestExactMatch`, `findInterestPrefixMatchByData`: the lookups of the PIT;
* `findMatchingDataFromCS`, `insertData`: its content store, with the LRU replacement policy.
-/

namespace Mars

/-! ### Configuration and packets -/

/-- The hash functions of components and names, and the configuration of the tables. -/
structure TableConfig where
  componentHash : Str → ℕ
  nameHash : Name → ℕ
  csAdmit : Bool
  csServe : Bool
  csCapacity : ℕ
  deadNonceListLifetime : Time
  producerRegions : List Name

/-- `FwData`, with the wire it was decoded from. -/
structure FwData where
  name : Name
  freshnessPeriod : Option Time
  wire : Bytes
  deriving DecidableEq, Repr

/-- A Data packet with a name and nothing else. -/
def dataNamed (name : Name) : FwData := ⟨name, none, []⟩

/-- `UnixNano`: the nanoseconds as a 64-bit integer. -/
def unixNano (t : Time) : ℤ := Int.bmod t (2 ^ 64)

/-- The lifetime of an Interest without an `InterestLifetime`: four seconds. -/
def defaultLifetime : Time := 4000000000

/-! ### Entries -/

/-- `PitInRecord`. -/
structure PitInRecord where
  face : Face
  latestTimestamp : Time
  latestNonce : ℕ
  expirationTime : Time
  pitToken : Bytes
  deriving DecidableEq, Repr

/-- `PitOutRecord`. -/
structure PitOutRecord where
  face : Face
  latestTimestamp : Time
  latestNonce : ℕ
  expirationTime : Time
  deriving DecidableEq, Repr

/-- `nameTreePitEntry`.  `node` is the node of the tree that holds the entry, if any; `encname`
is empty for an invalidated entry, as it is for one at the root; `queued` says that the entry
has an item in the expiry queue.  A map of records by face is a list of records. -/
structure NameTreePitEntry where
  node : Option (List ℕ)
  encname : Name
  canBePrefix : Bool
  mustBeFresh : Bool
  forwardingHintNew : Option Name
  inRecords : List PitInRecord
  outRecords : List PitOutRecord
  expirationTime : Time
  satisfied : Bool
  token : ℕ
  queued : Bool
  deriving DecidableEq, Repr

/-- An entry as the pool makes it. -/
def NameTreePitEntry.new : NameTreePitEntry :=
  ⟨none, [], false, false, none, [], [], 0, false, 0, false⟩

/-- `nameTreeCsEntry`; `data` is what its wire decodes to. -/
structure NameTreeCsEntry where
  node : List ℕ
  staleTime : Time
  data : FwData
  deriving DecidableEq, Repr

/-- `pitCsTreeNode`, without its edges: PIT entries by identity, the CS entry by its index. -/
structure PitCsTreeNode where
  component : Str
  name : Name
  depth : ℕ
  pitEntries : List ℕ
  csEntry : Option ℕ
  deriving DecidableEq, Repr

/-- `PitCsTree`, with the entries there are, those in the pool and the number ever made.
`csQueue` and `csLocations` are the queue and the keys of `locations` of its `CsLRU`. -/
structure PitCsTree where
  tree : Trie ℕ PitCsTreeNode
  entries : ℕ → NameTreePitEntry
  pool : List ℕ
  made : ℕ
  nPitEntries : ℤ
  nPitToken : ℕ
  pitTokens : ℕ → Option ℕ
  nCsEntries : ℤ
  csMap : ℕ → Option NameTreeCsEntry
  csQueue : List ℕ
  csLocations : Finset ℕ
  pitExpiryQueue : PriorityQueue ℕ ℤ

/-- `NewPitCS`. -/
def PitCsTree.new : PitCsTree where
  tree := .root ⟨[], [], 0, [], none⟩
  entries := fun _ => .new
  pool := []
  made := 0
  nPitEntries := 0
  nPitToken := 0
  pitTokens := fun _ => none
  nCsEntries := 0
  csMap := fun _ => none
  csQueue := []
  csLocations := ∅
  pitExpiryQueue := []

variable (cfg : TableConfig) (p : PitCsTree)

/-- Change an entry. -/
def PitCsTree.onEntry (e : ℕ) (f : NameTreePitEntry → NameTreePitEntry) : PitCsTree :=
  { p with entries := Function.update p.entries e (f (p.entries e)) }

/-! ### Records -/

/-- `InsertInRecord`: the record of the face, whether there was one and its previous nonce.  The
token of a record that is there is kept. -/
def NameTreePitEntry.insertInRecord (entry : NameTreePitEntry) (interest : FwInterest)
    (nonce : ℕ) (face : Face) (incomingPitToken : Bytes) (now : Time) :
    NameTreePitEntry × PitInRecord × Option ℕ :=
  let expirationTime := now + interest.lifetime.getD defaultLifetime
  match entry.inRecords.find? (·.face = face) with
  | none =>
    let record := ⟨face, now, nonce, expirationTime, incomingPitToken⟩
    ({ entry with inRecords := entry.inRecords ++ [record] }, record, none)
  | some previous =>
    let record := ⟨face, now, nonce, expirationTime, previous.pitToken⟩
    ({ entry with inRecords := entry.inRecords.map fun r => if r.face = face then record else r },
      record, some previous.latestNonce)

/-- `InsertOutRecord`. -/
def NameTreePitEntry.insertOutRecord (entry : NameTreePitEntry) (interest : FwInterest)
    (face : Face) (now : Time) : NameTreePitEntry :=
  let record : PitOutRecord :=
    ⟨face, now, interest.nonce.getD 0, now + interest.lifetime.getD defaultLifetime⟩
  if entry.outRecords.any (·.face = face) then
    { entry with outRecords := entry.outRecords.map fun r => if r.face = face then record else r }
  else { entry with outRecords := entry.outRecords ++ [record] }

/-- `UpdateExpirationTimer` and `updatePitExpiry`. -/
def PitCsTree.updateExpirationTimer (e : ℕ) (t : Time) : PitCsTree :=
  let p' := p.onEntry e fun entry => { entry with expirationTime := t, queued := true }
  if (p.entries e).queued then
    { p' with pitExpiryQueue := p.pitExpiryQueue.update e (unixNano t) }
  else { p' with pitExpiryQueue := p.pitExpiryQueue.push e (unixNano t) }

/-! ### The PIT -/

/-- The hashes of the components of a name. -/
def TableConfig.keys (name : Name) : List ℕ := name.map cfg.componentHash

/-- `findLongestPrefixEntryEnc`, from the root. -/
def findLongestPrefixEntry (tree : Trie ℕ PitCsTreeNode) (name : Name) : List ℕ :=
  tree.descend [] (cfg.keys name)

/-- `findExactMatchEntryEnc`, from the root. -/
def findExactMatchEntry (tree : Trie ℕ PitCsTreeNode) (name : Name) : Option (List ℕ) :=
  tree.findExact [] (cfg.keys name)

/-- The node that `fillTreeToPrefixEnc` makes below another. -/
def PitCsTreeNode.child (parent : PitCsTreeNode) (component : Str) : PitCsTreeNode :=
  ⟨component, parent.name ++ [component], parent.depth + 1, [], none⟩

/-- `fillTreeToPrefixEnc`: the missing nodes below the longest prefix there is. -/
def fillTreeToPrefix (tree : Trie ℕ PitCsTreeNode) (name : Name) : Trie ℕ PitCsTreeNode × List ℕ :=
  let entry := findLongestPrefixEntry cfg tree name
  tree.grow cfg.componentHash PitCsTreeNode.child entry (name.drop (tree.val entry).depth)

/-- `PitCsPools.NameTreePitEntry.Get`: an entry of the pool, which one is not fixed, or a new
one; its maps are cleared. -/
def PitCsTree.getEntry (pick : ℕ) : PitCsTree × ℕ :=
  let clear := fun entry : NameTreePitEntry => { entry with inRecords := [], outRecords := [] }
  if pick ∈ p.pool then ({ p with pool := p.pool.erase pick }.onEntry pick clear, pick)
  else ({ p with made := p.made + 1 }.onEntry p.made fun _ => .new, p.made)

def pitTokenLookupTableSize : ℕ := 125000

/-- `pitTokenIdx`. -/
def pitTokenIdx (token : ℕ) : ℕ := token % pitTokenLookupTableSize

/-- The entry that `InsertInterest` makes when none fits. -/
def PitCsTree.newEntry (interest : FwInterest) (hint : Option Name) (node : List ℕ) (pick : ℕ) :
    PitCsTree × ℕ :=
  let got := p.getEntry pick
  let e := got.2
  let nPitToken := (p.nPitToken + 1) % 2 ^ 64
  let token := nPitToken % 2 ^ 32
  let p := got.1.onEntry e fun entry => { entry with
    node := some node
    encname := (p.tree.val node).name
    canBePrefix := interest.canBePrefix
    mustBeFresh := interest.mustBeFresh
    forwardingHintNew := hint
    satisfied := false
    token := token
    queued := false }
  ({ p with
      tree := p.tree.modify node fun nd => { nd with pitEntries := nd.pitEntries ++ [e] }
      nPitEntries := p.nPitEntries + 1
      nPitToken := nPitToken
      pitTokens := Function.update p.pitTokens (pitTokenIdx token) (some e) }, e)

/-- The test of `InsertInterest`; a missing hint equals an empty one. -/
def NameTreePitEntry.aggregates (entry : NameTreePitEntry) (interest : FwInterest)
    (hint : Option Name) : Bool :=
  entry.canBePrefix == interest.canBePrefix && entry.mustBeFresh == interest.mustBeFresh
    && hint.getD [] == entry.forwardingHintNew.getD []

/-- The entry of an Interest, which is made if there is none. -/
def PitCsTree.entryFor (interest : FwInterest) (hint : Option Name) (pick : ℕ) : PitCsTree × ℕ :=
  let filled := fillTreeToPrefix cfg p.tree interest.name
  let p := { p with tree := filled.1 }
  match (p.tree.val filled.2).pitEntries.find?
      fun e => (p.entries e).aggregates interest hint with
  | some e => (p, e)
  | none => p.newEntry interest hint filled.2 pick

/-- `InsertInterest`: the entry of the Interest and whether its nonce is a duplicate. -/
def PitCsTree.insertInterest (interest : FwInterest) (nonce : ℕ) (hint : Option Name)
    (inFace : Face) (pick : ℕ) : PitCsTree × ℕ × Bool :=
  let found := p.entryFor cfg interest hint pick
  let p := found.1
  let e := found.2
  if (p.entries e).inRecords.any fun r => r.face ≠ inFace ∧ r.latestNonce = nonce then (p, e, true)
  else (p.onEntry e fun entry => { entry with expirationTime := 0 }, e, false)

/-- The test of `pruneIfEmpty` on a node without children. -/
def PitCsTreeNode.isEmpty (nd : PitCsTreeNode) : Bool :=
  nd.pitEntries.isEmpty && nd.csEntry.isNone

/-- The tree without an entry of one of its nodes. -/
def PitCsTree.unlisted (e : ℕ) (node : List ℕ) : Trie ℕ PitCsTreeNode :=
  p.tree.modify node fun nd => { nd with pitEntries := swapRemove nd.pitEntries e }

/-- The entry leaves its node, the tree is pruned, and the entry is invalidated and put into the
pool. -/
def PitCsTree.dropEntry (e : ℕ) (node : List ℕ) : PitCsTree :=
  let tokIdx := pitTokenIdx (p.entries e).token
  { p with
    tree := (p.unlisted e node).prune PitCsTreeNode.isEmpty node
    nPitEntries := p.nPitEntries - 1
    pitTokens := if p.pitTokens tokIdx = some e then Function.update p.pitTokens tokIdx none
      else p.pitTokens
    pool := e :: p.pool }.onEntry e fun entry =>
      { entry with encname := [], node := none, inRecords := [], outRecords := [] }

/-- `RemoveInterest`: an entry that is listed at its node is dropped. -/
def PitCsTree.removeInterest (e : ℕ) : PitCsTree :=
  match (p.entries e).node with
  | none => p
  | some node => if e ∈ (p.tree.val node).pitEntries then p.dropEntry e node else p

/-- `Update` takes the next entry that is due out of the expiry queue. -/
def PitCsTree.popExpired (now : Time) : Option (ℕ × PitCsTree) :=
  (p.pitExpiryQueue.popIf (· ≤ unixNano now)).map fun popped =>
    (popped.1, { p with pitExpiryQueue := popped.2 }.onEntry popped.1 fun entry =>
      { entry with queued := false })

/-- `FindInterestExactMatchEnc`. -/
def PitCsTree.findInterestExactMatch (interest : FwInterest) : Option ℕ :=
  (findExactMatchEntry cfg p.tree interest.name).bind fun node =>
    (p.tree.val node).pitEntries.find? fun e =>
      (p.entries e).canBePrefix == interest.canBePrefix
        && (p.entries e).mustBeFresh == interest.mustBeFresh

/-- `findInterestPrefixMatchByNameEnc`: the entries of a node and of its ancestors. -/
def PitCsTree.findInterestPrefixMatchByName (name : Name) : List ℕ :=
  (findLongestPrefixEntry cfg p.tree name).tails.flatMap fun node =>
    (p.tree.val node).pitEntries.filter fun e =>
      (p.entries e).canBePrefix || decide ((p.tree.val node).depth = name.length)

/-- `FindInterestPrefixMatchByDataEnc`: a token that is still in use decides alone. -/
def PitCsTree.findInterestPrefixMatchByData (name : Name) (token : Option ℕ) : List ℕ :=
  let named := p.findInterestPrefixMatchByName cfg name
  match token with
  | none => named
  | some token =>
    match p.pitTokens (pitTokenIdx token) with
    | none => named
    | some e =>
      if (p.entries e).encname ≠ [] ∧ (p.entries e).token = token then [e] else named

/-! ### The content store -/

/-- The test on the CS entry of a node: one that may be stale, or is not. -/
def PitCsTree.freshEntry (node : List ℕ) (mustBeFresh : Bool) (now : Time) : Option ℕ :=
  (p.tree.val node).csEntry.filter fun index =>
    !mustBeFresh || (p.csMap index).any fun entry => decide (now < entry.staleTime)

/-- `findMatchingDataCSPrefix`: the node itself, then its children one by one.  The source's test of
the depth always holds below the node of the name; `fuel` bounds the depth of the search, and no
path has more nodes than the tree. -/
def PitCsTree.findMatchingDataCSPrefix (p : PitCsTree) (mustBeFresh : Bool) (now : Time)
    (wish : List ℕ) : ℕ → List ℕ → Option ℕ
  | 0, _ => none
  | fuel + 1, node =>
    (p.freshEntry node mustBeFresh now).or
      ((rangeOrder ((p.tree.children node).sort (· ≤ ·)) wish).findSome? fun key =>
        p.findMatchingDataCSPrefix mustBeFresh now wish fuel (key :: node))

/-- An index moves to the back of the queue.  Where `locations` points to an element that was
taken out of the queue, nothing is removed: an element is found by its value. -/
def touch (queue : List ℕ) (index : ℕ) : List ℕ := queue.erase index ++ [index]

/-- `BeforeUse`, `AfterInsert` and `AfterRefresh` of `CsLRU`. -/
def PitCsTree.touchCs (index : ℕ) : PitCsTree :=
  { p with csQueue := touch p.csQueue index, csLocations := insert index p.csLocations }

/-- `FindMatchingDataFromCS`.  Only an exact match counts as a use. -/
def PitCsTree.findMatchingDataFromCS (interest : FwInterest) (now : Time) (wish : List ℕ) :
    PitCsTree × Option ℕ :=
  match findExactMatchEntry cfg p.tree interest.name with
  | none => (p, none)
  | some node =>
    if interest.canBePrefix then
      (p, p.findMatchingDataCSPrefix interest.mustBeFresh now wish p.tree.paths.card node)
    else
      match p.freshEntry node interest.mustBeFresh now with
      | none => (p, none)
      | some index => (p.touchCs index, some index)

/-- `eraseCsDataFromReplacementStrategy`: the node stays, even if it is empty now. -/
def PitCsTree.eraseCsData (index : ℕ) : PitCsTree :=
  match p.csMap index with
  | none => p
  | some entry =>
    { p with
      tree := p.tree.modify entry.node fun nd => { nd with csEntry := none }
      csMap := Function.update p.csMap index none
      nCsEntries := p.nCsEntries - 1 }

/-- `EvictEntries`: the oldest entries leave until the capacity is met; there are `fuel` at
most.  Their keys stay in `locations`. -/
def PitCsTree.evictEntries (capacity : ℕ) : ℕ → PitCsTree → PitCsTree
  | 0, p => p
  | fuel + 1, p =>
    if p.csQueue.length ≤ capacity then p
    else
      evictEntries capacity fuel
        { p.eraseCsData (p.csQueue.headD 0) with csQueue := p.csQueue.tail }

/-- `InsertData`. -/
def PitCsTree.insertData (data : FwData) (now : Time) : PitCsTree :=
  let index := cfg.nameHash data.name
  let staleTime := now + data.freshnessPeriod.getD 0
  match p.csMap index with
  | some entry =>
    { p with
      csMap := Function.update p.csMap index
        (some { entry with data := data, staleTime := staleTime }) }.touchCs index
  | none =>
    let filled := fillTreeToPrefix cfg p.tree data.name
    let p := { p with
      nCsEntries := p.nCsEntries + 1
      tree := filled.1.modify filled.2 fun nd => { nd with csEntry := some index }
      csMap := Function.update p.csMap index (some ⟨filled.2, staleTime, data⟩) }
    let p := p.touchCs index
    evictEntries cfg.csCapacity p.csQueue.length p

end Mars
