import Mars.Lib.Steps
import Mars.Table.Fib
import Mathlib.Data.Finset.Sort

/-!
The RIB, and how its routes become FIB nexthops.

* `Route`, `minCosts`, `inheritable`: the loops of `updateNexthopsEnc` over routes;
* `RibTable`, `updateNexthops`, `AddEncRoute`, `RemoveRouteEnc`, `CleanUpFace`: the tree of entries
  and the operations, which refresh the FIB below the entry that has changed;
* `minHops`: the least cost of every face; `flattened`: the nexthops that a name is meant to have;
  `CaptureStops`: where the walk over the ancestors of a name gives no other routes.
-/

namespace Mars

open Function

/-! ### Routes -/

/-- `Route`. -/
structure Route where
  faceID : Face
  origin : ℕ
  cost : ℕ
  flags : ℕ
  deriving DecidableEq, Repr

/-- `HasChildInheritFlag`. -/
def Route.hasChildInheritFlag (r : Route) : Bool := r.flags &&& 1 != 0

/-- `HasCaptureFlag`. -/
def Route.hasCaptureFlag (r : Route) : Bool := r.flags &&& 2 != 0

variable (routes : List Route)

/-- `HasCaptureRoute`. -/
def hasCaptureRoute : Bool := routes.any Route.hasCaptureFlag

/-- The routes of an entry when `AddEncRoute` has added one: one with the same face and origin is
overwritten. -/
def addRoute (route : Route) : List Route → List Route
  | [] => [route]
  | r :: routes =>
    if r.faceID = route.faceID ∧ r.origin = route.origin then route :: routes
    else r :: addRoute route routes

/-- The routes that the inner loop of `updateNexthopsEnc` takes over from an entry: a capture route
ends the loop over the routes. -/
def inheritable : List Route → List Route
  | [] => []
  | r :: routes =>
    (if r.hasChildInheritFlag then [r] else [])
      ++ if r.hasCaptureFlag then [] else inheritable routes

/-- A route is entered into `minCostRoutes`. -/
def addMinCost (costs : List FibNextHopEntry) (route : Route) : List FibNextHopEntry :=
  match costs.find? (·.nexthop = route.faceID) with
  | none => insertHop route.faceID route.cost costs
  | some nh => if route.cost < nh.cost then insertHop route.faceID route.cost costs else costs

/-- `minCostRoutes`. -/
def minCosts : List FibNextHopEntry := routes.foldl addMinCost []

/-! ### The tree of entries -/

variable {κ : Type*} [DecidableEq κ]

/-- `RibEntry`; the name of the root is nil. -/
structure RibEntry (κ : Type*) where
  name : Option (List κ)
  depth : ℕ
  routes : List Route

/-- The RIB and the FIB.  The children of an entry are found by the hash of a component. -/
structure RibTable (κ : Type*) where
  rib : Trie ℕ (RibEntry κ)
  fib : FibStrategyTree κ

/-- The orders in which the loops over maps visit children and nexthops, which Go does not fix. -/
structure RibOrder where
  children : List ℕ → List ℕ
  nexthops : List ℕ → List FibNextHopEntry

/-- An operation on the RIB. -/
inductive RibOp (κ : Type*) where
  | addRoute (name : List κ) (route : Route) (order : RibOrder)
  | removeRoute (name : List κ) (faceID : Face) (origin : ℕ) (order : RibOrder)
  | cleanUpFace (faceID : Face) (order : RibOrder)

namespace RibTable

/-- Empty tables. -/
def new (defaultStrategy : List κ) : RibTable κ := ⟨.root ⟨none, 0, []⟩, .new defaultStrategy⟩

variable (hash : κ → ℕ) (rib : Trie ℕ (RibEntry κ)) (s : RibTable κ)

variable (name : List κ)

/-- `findLongestPrefixEntryEnc`, from the root. -/
def findLongestPrefixEntry : List ℕ :=
  rib.descend [] (name.map hash)

/-- `findExactMatchEntryEnc`, from the root. -/
def findExactMatchEntry : Option (List ℕ) :=
  let found := findLongestPrefixEntry hash rib name
  if name.length = ((rib.val found).name.getD []).length then some found else none

/-- The entry that `fillTreeToPrefixEnc` makes below another. -/
def child (parent : RibEntry κ) (component : κ) : RibEntry κ :=
  ⟨some (parent.name.getD [] ++ [component]), parent.depth + 1, []⟩

/-- `fillTreeToPrefixEnc`: the missing entries below the longest prefix there is. -/
def fillTreeToPrefix : Trie ℕ (RibEntry κ) × List ℕ :=
  let entry := findLongestPrefixEntry hash rib name
  rib.grow hash child entry (name.drop (rib.val entry).depth)

/-- `pruneIfEmpty`: the loop unlinks the entry before it reads the parent, so it stops after one
entry. -/
def pruneIfEmpty : List ℕ → Trie ℕ (RibEntry κ)
  | [] => rib
  | k :: parent =>
    if rib.children (k :: parent) = ∅ ∧ (rib.val (k :: parent)).routes = [] then
      rib.remove k parent
    else rib

/-- The routes that the nexthops of an entry are made from: its own, and those of the entries from
it up to the root unless it has a capture route. -/
def allRoutes (entry : List ℕ) : List Route :=
  (rib.val entry).routes ++
    if hasCaptureRoute (rib.val entry).routes then []
    else entry.tails.flatMap fun e => inheritable (rib.val e).routes

/-- The part of `updateNexthopsEnc` that is for the entry itself. -/
def refresh (order : RibOrder) (fib : FibStrategyTree κ) (entry : List ℕ) : FibStrategyTree κ :=
  let name := (rib.val entry).name
  let fib := fib.clearNextHops name
  if (rib.val entry).routes = [] then fib
  else
    (rangeOrder (minCosts (allRoutes rib entry)) (order.nexthops entry)).foldl
      (fun fib nh => fib.insertNextHop (name.getD []) nh.nexthop nh.cost) fib

/-- The children of an entry, in the order of a loop over them. -/
def childOrder (order : RibOrder) (entry : List ℕ) : List ℕ :=
  rangeOrder ((rib.children entry).sort (· ≤ ·)) (order.children entry)

/-- `updateNexthopsEnc`; the tree is `fuel` levels deep at most. -/
def updateNexthops (rib : Trie ℕ (RibEntry κ)) (order : RibOrder) :
    ℕ → FibStrategyTree κ → List ℕ → FibStrategyTree κ
  | 0, fib, _ => fib
  | fuel + 1, fib, entry =>
    (childOrder rib order entry).foldl
      (fun fib k => updateNexthops rib order fuel fib (k :: entry))
      (refresh rib order fib entry)

/-- The levels of a tree. -/
def levels : ℕ := rib.paths.sup List.length + 1

/-- `AddEncRoute`. -/
def addEncRoute (route : Route) (order : RibOrder) : RibTable κ :=
  let filled := fillTreeToPrefix hash s.rib name
  let rib := filled.1.modify filled.2 fun e => { e with routes := Mars.addRoute route e.routes }
  ⟨rib, updateNexthops rib order (levels rib) s.fib filled.2⟩

/-- The routes of an entry lose one, the entry is pruned, and the FIB is refreshed below it. -/
def withdraw (entry : List ℕ) (test : Route → Bool) (order : RibOrder) : RibTable κ :=
  let rib := s.rib.modify entry fun e => { e with routes := e.routes.eraseP test }
  let pruned := pruneIfEmpty rib entry
  ⟨pruned, updateNexthops pruned order (levels pruned) s.fib entry⟩

/-- `RemoveRouteEnc`. -/
def removeRouteEnc (faceID : Face) (origin : ℕ) (order : RibOrder) : RibTable κ :=
  match findExactMatchEntry hash s.rib name with
  | none => s
  | some entry => s.withdraw entry (fun r => r.faceID = faceID ∧ r.origin = origin) order

/-- `cleanUpFace`: the children first, and then the first route of the face, if there is one. -/
def cleanUpFace (faceID : Face) (order : RibOrder) : ℕ → RibTable κ → List ℕ → RibTable κ
  | 0, s, _ => s
  | fuel + 1, s, entry =>
    let s := (childOrder s.rib order entry).foldl
      (fun s k => cleanUpFace faceID order fuel s (k :: entry)) s
    if (s.rib.val entry).routes.any (·.faceID = faceID) then
      s.withdraw entry (·.faceID = faceID) order
    else s

/-- The tables after an operation. -/
def step : RibOp κ → RibTable κ
  | .addRoute name route order => s.addEncRoute hash name route order
  | .removeRoute name faceID origin order => s.removeRouteEnc hash name faceID origin order
  | .cleanUpFace faceID order => cleanUpFace faceID order (levels s.rib) s []

/-- The tables after a sequence of operations. -/
def run (hash : κ → ℕ) (defaultStrategy : List κ) (ops : List (RibOp κ)) : RibTable κ :=
  Steps.run (step hash) (new defaultStrategy) ops

/-- The routes of a name. -/
def routesOf : List Route :=
  match findExactMatchEntry hash s.rib name with
  | none => []
  | some entry => (s.rib.val entry).routes

end RibTable

/-- The nexthops of an entry of the FIB. -/
def FibStrategyTree.nexthopsOf (t : FibStrategyTree κ) (name : List κ) : List FibNextHopEntry :=
  match t.findExactMatchEntry name with
  | none => []
  | some entry => (t.tree.val entry).nexthops

/-! ### What is meant -/

/-- What an operation does to the routes of every name. -/
def RibOp.change (routes : List κ → List Route) : RibOp κ → List κ → List Route
  | .addRoute name route _ => update routes name (Mars.addRoute route (routes name))
  | .removeRoute name faceID origin _ =>
    update routes name
      ((routes name).eraseP fun r => r.faceID = faceID ∧ r.origin = origin)
  | .cleanUpFace faceID _ => fun name => (routes name).eraseP (·.faceID = faceID)

/-- The least cost of each face. -/
def minHops : Finset FibNextHopEntry :=
  (routes.map fun r => ⟨r.faceID, r.cost⟩).toFinset.filter fun nh =>
    ∀ r ∈ routes, r.faceID = nh.nexthop → nh.cost ≤ r.cost

/-- The routes of the ancestors of a name, from the nearest to the root. -/
def ancestors (routes : List κ → List Route) (name : List κ) : List (List Route) :=
  name.inits.reverse.tail.map routes

/-- The child-inherit routes of the ancestors, up to and with the nearest one that has a capture
route. -/
def inherited : List (List Route) → List Route
  | [] => []
  | rs :: above =>
    rs.filter Route.hasChildInheritFlag
      ++ if hasCaptureRoute rs then [] else inherited above

/-- The nexthops that a name is meant to have. -/
def flattened (routes : List κ → List Route) (name : List κ) : Finset FibNextHopEntry :=
  minHops (routes name ++
    if hasCaptureRoute (routes name) then [] else inherited (ancestors routes name))

/-- At the nearest ancestor with a capture route no child-inherit route comes after it, and the
entries above it have none to give. -/
def CaptureStops : List (List Route) → Prop
  | [] => True
  | rs :: above =>
    if hasCaptureRoute rs then
      inheritable rs = rs.filter Route.hasChildInheritFlag ∧ ∀ rs' ∈ above, inheritable rs' = []
    else CaptureStops above

instance decidableCaptureStops : ∀ chain, Decidable (CaptureStops chain)
  | [] => isTrue trivial
  | rs :: above =>
    have := decidableCaptureStops above
    inferInstanceAs (Decidable (if hasCaptureRoute rs then
      inheritable rs = rs.filter Route.hasChildInheritFlag ∧ ∀ rs' ∈ above, inheritable rs' = []
    else CaptureStops above))

end Mars
