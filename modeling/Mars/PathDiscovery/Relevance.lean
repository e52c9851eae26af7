import Mars.PathDiscovery.Runs

/-!
What the Interests of other consumers do to the discovery of a consumer node.

`handlePathDiscoveryInterest` decides relevance by the source node of the Interest, but keeps
`IsInvalidNode` by prefix: an irrelevant Interest marks the node invalid for the prefix, and the
node's own Interests are NACKed from then on.

* `PdEvent.foreign`: the Interests that another node is the source of; one from `con10` is relevant
  to `con1` all the same, since the test is for a prefix;
* `own_actions_unaffected`: as long as each of them finds the node already invalid, the handlers
  act as if they had not come;
* `foreign_interest_disables_discovery`: else a single one of them ends the discovery.
-/

namespace Mars

variable {node key : Str}

/-- An Interest that another node is the source of. -/
def PdInput.foreign (node : Str) : PdInput → Bool
  | .interest srcNode _ _ _ => trimPrefix srcNode ['/'] ≠ trimPrefix node ['/']
  | _ => false

/-- A path-discovery Interest that another node is the source of. -/
def PdEvent.foreign (node : Str) (e : PdEvent) : Bool := e.input.any fun ki => ki.2.foreign node

/-- A foreign Interest that finds the node invalid for the prefix changes nothing. -/
lemma prefixStep_foreign {info : PathDiscoveryInfo} {i : PdInput}
    (hinvalid : info.isInvalidNode = true) (hi : i.foreign node = true) :
    prefixStep node info i = info := by
  cases i with
  | interest srcNode probeIdx inFace nexthops =>
    have hmarked : { info with isInvalidNode := true } = info := by rw [← hinvalid]
    simp only [prefixStep, pdLocked, pathDiscoveryInterest, screenRelevance, hinvalid, if_true]
    split_ifs
    · exact hmarked
    · rfl
  | nack => cases hi
  | data => cases hi

/-- Leaving out the foreign Interests of a run leaves out those of each prefix. -/
lemma inputsOf_filter_foreign {es : List PdEvent} :
    inputsOf key (es.filter fun e => !e.foreign node)
      = (inputsOf key es).filter fun i => !i.foreign node := by
  induction es with
  | nil => rfl
  | cons e es ih =>
    have hcons : ∀ fs, inputsOf key (e :: fs) = inputsOf key [e] ++ inputsOf key fs :=
      fun fs => inputsOf_append key [e] fs
    have hone : ∀ b : Bool, e.foreign node = b →
        (inputsOf key [e]).filter (fun i => !i.foreign node)
          = if b then [] else inputsOf key [e] := by
      rintro b rfl
      rw [inputsOf_singleton]
      cases hin : e.input with
      | none => simp
      | some ki =>
        simp only [PdEvent.foreign, hin, Option.any_some, Option.bind_some]
        split_ifs with hk hirr <;> simp_all
    rw [hcons, List.filter_append, ← ih]
    cases hirr : e.foreign node with
    | true => rw [List.filter_cons_of_neg (by simp [hirr]), hone true hirr]; rfl
    | false =>
      rw [List.filter_cons_of_pos (by simp [hirr]), hcons, hone false hirr]
      rfl

/-- The condition: a foreign Interest finds the node already invalid for the prefix. -/
def FindsInvalid (node : Str) (info : PathDiscoveryInfo) (i : PdInput) : Prop :=
  i.foreign node = true → info.isInvalidNode = true

instance (info : PathDiscoveryInfo) (i : PdInput) : Decidable (FindsInvalid node info i) :=
  inferInstanceAs (Decidable (_ → _))

/-- The state of a prefix does not depend on foreign Interests that find it invalid. -/
lemma pdRun_filter_foreign {es : List PdEvent}
    (hes : GuardedRun node key (FindsInvalid node) es) :
    pdRun node (es.filter fun e => !e.foreign node) key = pdRun node es key := by
  rw [pdRun_apply, pdRun_apply, inputsOf_filter_foreign]
  have hidle : ∀ info i, FindsInvalid node info i → i.foreign node = true →
      prefixStep node info i = info :=
    fun _ _ hok hi => prefixStep_foreign (hok hi) hi
  exact Steps.run_filter hidle hes

/-- **Other consumers do not disturb a node that is invalid already**: as long as every
foreign Interest of a prefix finds the node invalid for it, the handler does with each Interest of
the prefix what it does if the foreign ones never come. -/
theorem own_actions_unaffected (node : Str) (es : List PdEvent) (name : Name) (inFace : Face)
    (nexthops : List (Option FibNextHopEntry))
    (hes : GuardedRun node (name.getD 0 []) (FindsInvalid node) es) :
    (pdHandle node (pdRun node es) (.interest name inFace nexthops)).out
      = (pdHandle node (pdRun node (es.filter fun e => !e.foreign node))
          (.interest name inFace nexthops)).out := by
  have hstate := pdRun_filter_foreign hes
  simp only [pdHandle, handlePathDiscoveryInterest]
  split
  · rfl
  · split
    · rfl
    · simp only [PdStore.locked, hstate]

/-- A discovery Interest for the prefix `p` from the given source node. -/
def probeFrom (srcNode : Str) (inFace : Face) : PdEvent :=
  .interest [['p'], srcNode, ['p', 'd'], ['0'], ['1']] inFace [some ⟨2, 1⟩, some ⟨3, 1⟩]

/-- A node whose only upstream has answered NoRoute is invalid, and stays so when an Interest of
another consumer comes. -/
theorem own_actions_unaffected_invalid :
    let node := conNode ++ ['1']
    let es := [probeFrom ['c', 'o', 'n', '1'] 9, noRoute 2, noRoute 3,
      probeFrom ['c', 'o', 'n', '2'] 8]
    (es.filter fun e => !e.foreign node).length = 3
      ∧ (pdHandle node (pdRun node es) (probeFrom ['c', 'o', 'n', '1'] 9)).out
        = (pdHandle node (pdRun node (es.filter fun e => !e.foreign node))
            (probeFrom ['c', 'o', 'n', '1'] 9)).out :=
  ⟨by decide +kernel, own_actions_unaffected (conNode ++ ['1']) _ _ _ _ (by decide +kernel)⟩

/-- The first Interest that the node `/con1` sees of the prefix comes from `con2`.  The node's own
Interest is then NACKed; had the other not come, it would be forwarded to face `2`. -/
theorem foreign_interest_disables_discovery :
    let node := conNode ++ ['1']
    let foreign := probeFrom ['c', 'o', 'n', '2'] 8
    let own := probeFrom ['c', 'o', 'n', '1'] 9
    hasPrefix node conNode = true
      ∧ foreign.foreign node = true ∧ own.foreign node = false
      ∧ (pdHandle node (pdRun node [foreign]) own).out = [.sendNack 9 9 nackReasonNoRoute]
      ∧ (pdHandle node (pdRun node ([foreign].filter fun e => !e.foreign node)) own).out
        = [.sendInterest 2 9] := by
  decide +kernel

end Mars
