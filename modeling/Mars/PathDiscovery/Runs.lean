import Mars.PathDiscovery.Handlers
import Mars.Lib.Steps

/-!
Runs of path discovery at one node.

`multipathPdState` is a map from prefixes to states that is shared by all threads.  A
handler holds the lock of its prefix state throughout, so the handlers of one prefix
follow each other; `pdRun` is the store after any sequence of events.

* `handlePathDiscoveryInterest`, `handlePathDiscoveryNack`, `handlePathDiscoveryData`:
  the handlers, on the store of all prefixes;
* `PdInput`, `PdEvent.input`, `pdLocked`: what is left of an event under the lock;
* `pdRun_apply`: **the store splits**, the state of a prefix runs over its own inputs
  and nothing else;
* `prefix_invariant`: the invariant rule for one prefix.
-/

namespace Mars

open Steps

/-- A path-discovery event: a packet of type `pd` that the strategy is handed, with the
face it came from and what its PIT entry and the FIB contribute. -/
inductive PdEvent where
  | interest (name : Name) (inFace : Face) (nexthops : List (Option FibNextHopEntry))
  | nack (name : Name) (inFace : Face) (nackReason : ℕ) (inRecords : List Face)
  | data (name : Name) (inFace : Face) (payload : PdPayload) (inRecords : List Face)

/-- `multipathPdState`; a prefix not looked up yet has the state that its first lookup
stores. -/
abbrev PdStore := Str → PathDiscoveryInfo

/-- The store of a node that has seen no packet. -/
def PdStore.init : PdStore := PathDiscoveryInfo.new

variable (node : Str) (st : PdStore)

/-- Run a handler on the state of one prefix. -/
def PdStore.locked (key : Str) (body : PathDiscoveryInfo → Outcome PathDiscoveryInfo PdAction) :
    Outcome PdStore PdAction :=
  let r := body (st key)
  ⟨r.returned, Function.update st key r.state, r.out⟩

/-- `handlePathDiscoveryInterest`: a name of fewer than two components or without a
numeric probe index is dropped. -/
def handlePathDiscoveryInterest (name : Name) (inFace : Face)
    (nexthops : List (Option FibNextHopEntry)) : Outcome PdStore PdAction :=
  if name.length < 2 then .ret st []
  else
    match atoi (name.getD (name.length - 2) []) with
    | none => .ret st []
    | some probeIdx =>
      st.locked (name.getD 0 []) fun info =>
        pathDiscoveryInterest node info (name.getD 1 []) probeIdx inFace nexthops

/-- `handlePathDiscoveryNack`. -/
def handlePathDiscoveryNack (name : Name) (inFace : Face) (nackReason : ℕ) (inRecords : List Face) :
    Outcome PdStore PdAction :=
  st.locked (prefixKeyOf name) fun info => pathDiscoveryNack info inFace nackReason inRecords

/-- `handlePathDiscoveryData`: undecodable bytes are sent on as they are, a payload that
is no `DiscoveryPacket` is dropped. -/
def handlePathDiscoveryData (name : Name) (inFace : Face) (payload : PdPayload)
    (inRecords : List Face) : Outcome PdStore PdAction :=
  match payload with
  | .undecodable => .ret st (inRecords.map fun faceID => .sendDataUnread faceID inFace)
  | .malformed => .ret st []
  | .discovery tierConverged nodeConverged =>
    st.locked (prefixKeyOf name) fun info =>
      pathDiscoveryData node info inFace tierConverged nodeConverged inRecords

/-- What the strategy does on a path-discovery event. -/
def pdHandle : PdEvent → Outcome PdStore PdAction
  | .interest name inFace nexthops => handlePathDiscoveryInterest node st name inFace nexthops
  | .nack name inFace nackReason inRecords =>
    handlePathDiscoveryNack st name inFace nackReason inRecords
  | .data name inFace payload inRecords =>
    handlePathDiscoveryData node st name inFace payload inRecords

/-- The store after one event. -/
def pdStep (e : PdEvent) : PdStore := (pdHandle node st e).state

/-- The store after a sequence of events. -/
def pdRun (es : List PdEvent) : PdStore := run (pdStep node) PdStore.init es

/-! ### One prefix at a time -/

/-- An event of one prefix as its handler sees it under the lock. -/
inductive PdInput where
  | interest (srcNode : Str) (probeIdx : ℤ) (inFace : Face)
      (nexthops : List (Option FibNextHopEntry))
  | nack (inFace : Face) (nackReason : ℕ) (inRecords : List Face)
  | data (inFace : Face) (tierConverged nodeConverged : Bool) (inRecords : List Face)

/-- The handler of an input. -/
def pdLocked (info : PathDiscoveryInfo) : PdInput → Outcome PathDiscoveryInfo PdAction
  | .interest srcNode probeIdx inFace nexthops =>
    pathDiscoveryInterest node info srcNode probeIdx inFace nexthops
  | .nack inFace nackReason inRecords => pathDiscoveryNack info inFace nackReason inRecords
  | .data inFace tierConverged nodeConverged inRecords =>
    pathDiscoveryData node info inFace tierConverged nodeConverged inRecords

/-- The prefix an event is for and what its handler sees of it; an event that is dropped
or sent on unread has none. -/
def PdEvent.input : PdEvent → Option (Str × PdInput)
  | .interest name inFace nexthops =>
    if name.length < 2 then none
    else (atoi (name.getD (name.length - 2) [])).map fun probeIdx =>
      (name.getD 0 [], .interest (name.getD 1 []) probeIdx inFace nexthops)
  | .nack name inFace nackReason inRecords =>
    some (prefixKeyOf name, .nack inFace nackReason inRecords)
  | .data name inFace (.discovery tierConverged nodeConverged) inRecords =>
    some (prefixKeyOf name, .data inFace tierConverged nodeConverged inRecords)
  | .data _ _ _ _ => none

/-- The inputs of one prefix in a sequence of events. -/
def inputsOf (key : Str) (es : List PdEvent) : List PdInput :=
  es.filterMap fun e => e.input.bind fun ki => if ki.1 = key then some ki.2 else none

/-- The state of a prefix after one input. -/
def prefixStep (info : PathDiscoveryInfo) (i : PdInput) : PathDiscoveryInfo :=
  (pdLocked node info i).state

/-- The state of a prefix after a sequence of inputs. -/
def prefixRun (key : Str) (is : List PdInput) : PathDiscoveryInfo :=
  run (prefixStep node) (.new key) is

/-- An event with an input is handled under the lock of its prefix. -/
lemma pdHandle_of_input {node : Str} {st : PdStore} {e : PdEvent} {key : Str} {i : PdInput}
    (h : e.input = some (key, i)) :
    pdHandle node st e = st.locked key fun info => pdLocked node info i := by
  cases e with
  | interest name inFace nexthops =>
    simp only [PdEvent.input] at h
    split at h
    · cases h
    · rename_i hlen
      obtain ⟨probeIdx, hidx, heq⟩ := Option.map_eq_some_iff.mp h
      cases heq
      simp only [pdHandle, handlePathDiscoveryInterest, if_neg hlen, hidx]
      rfl
  | nack name inFace nackReason inRecords =>
    cases h
    rfl
  | data name inFace payload inRecords =>
    cases payload <;> cases h
    rfl

/-- An event without an input changes no state and sends no path-discovery Data. -/
lemma pdHandle_of_no_input {node : Str} {st : PdStore} {e : PdEvent} (h : e.input = none) :
    (pdHandle node st e).state = st ∧
      ∀ a ∈ (pdHandle node st e).out, ∃ nexthop inFace, a = .sendDataUnread nexthop inFace := by
  cases e with
  | interest name inFace nexthops =>
    simp only [PdEvent.input] at h
    simp only [pdHandle, handlePathDiscoveryInterest]
    split at h
    · rename_i hlen
      simp [hlen]
    · rename_i hlen
      rw [if_neg hlen, Option.map_eq_none_iff.mp h]
      simp
  | nack name inFace nackReason inRecords => cases h
  | data name inFace payload inRecords =>
    cases payload with
    | undecodable =>
      simp only [pdHandle, handlePathDiscoveryData, Outcome.ret_state, Outcome.ret_out, true_and,
        List.mem_map]
      rintro a ⟨face, -, rfl⟩
      exact ⟨face, inFace, rfl⟩
    | malformed => simp [pdHandle, handlePathDiscoveryData]
    | discovery tierConverged nodeConverged => cases h

@[simp] lemma inputsOf_nil {key : Str} : inputsOf key [] = [] := rfl

lemma inputsOf_append (key : Str) (es fs : List PdEvent) :
    inputsOf key (es ++ fs) = inputsOf key es ++ inputsOf key fs :=
  List.filterMap_append

lemma inputsOf_singleton {key : Str} {e : PdEvent} :
    inputsOf key [e]
      = (e.input.bind fun ki => if ki.1 = key then some ki.2 else none).toList := by
  cases h : e.input.bind fun ki => if ki.1 = key then some ki.2 else none <;>
    simp [inputsOf, h]

/-- An input of a prefix comes from an event, after the events its earlier inputs come
from. -/
lemma exists_event_of_inputsOf {key : Str} {es : List PdEvent} {pre post : List PdInput}
    {i : PdInput} (h : inputsOf key es = pre ++ i :: post) :
    ∃ es₁ e es₂, es = es₁ ++ e :: es₂ ∧ e.input = some (key, i) ∧ inputsOf key es₁ = pre := by
  obtain ⟨l₁, l₂, rfl, hpre, hpost⟩ := List.filterMap_eq_append_iff.mp h
  obtain ⟨l₃, e, l₄, rfl, hnone, hinput, -⟩ := List.filterMap_eq_cons_iff.mp hpost
  refine ⟨l₁ ++ l₃, e, l₄, by simp, ?_, ?_⟩
  · obtain ⟨⟨k, j⟩, hkj, hj⟩ := Option.bind_eq_some_iff.mp hinput
    obtain ⟨hk, hij⟩ := Option.ite_none_right_eq_some.mp hj
    cases hij
    rw [hkj, ← hk]
  · have hskip : inputsOf key l₃ = [] := List.filterMap_eq_nil_iff.mpr hnone
    rw [inputsOf_append, hskip, List.append_nil]
    exact hpre

/-- **The store splits**: the state of a prefix after a sequence of events is reached by
the inputs of that prefix alone. -/
theorem pdRun_apply (key : Str) (es : List PdEvent) :
    pdRun node es key = prefixRun node key (inputsOf key es) := by
  induction es using List.reverseRecOn with
  | nil => rfl
  | append_singleton es e ih =>
    rw [pdRun, run_concat, inputsOf_append, inputsOf_singleton, prefixRun, run_append]
    change (pdHandle node (pdRun node es) e).state key = run (prefixStep node)
      (prefixRun node key (inputsOf key es)) _
    rw [← ih]
    cases h : e.input with
    | none => simp [(pdHandle_of_no_input h).1]
    | some ki =>
      rw [pdHandle_of_input h, PdStore.locked, Option.bind_some]
      by_cases hk : ki.1 = key
      · subst hk
        simp [prefixStep]
      · simp [hk, Function.update_of_ne (Ne.symm hk)]

/-- Every input of the prefix in the run meets `ok` in the state in which it is taken. -/
def GuardedRun (key : Str) (ok : PathDiscoveryInfo → PdInput → Prop) (es : List PdEvent) : Prop :=
  Guarded (prefixStep node) ok (.new key) (inputsOf key es)

instance {node key : Str} {ok : PathDiscoveryInfo → PdInput → Prop}
    [∀ info i, Decidable (ok info i)] (es : List PdEvent) :
    Decidable (GuardedRun node key ok es) :=
  decidableGuarded _ _

/-- **The invariant rule for one prefix**: what every step that meets the condition
preserves holds after every run whose steps meet it. -/
theorem prefix_invariant {node key : Str} {ok : PathDiscoveryInfo → PdInput → Prop}
    {I : PathDiscoveryInfo → Prop} (hnew : I (.new key))
    (hstep : ∀ info i, I info → ok info i → I (prefixStep node info i)) {es : List PdEvent}
    (hes : GuardedRun node key ok es) : I (pdRun node es key) := by
  rw [pdRun_apply]
  exact guarded_invariant hstep hnew hes

section Event

variable {node key : Str} {es : List PdEvent} {e : PdEvent} {i : PdInput}

section

variable (hi : e.input = some (key, i))
include hi

lemma inputsOf_concat : inputsOf key (es ++ [e]) = inputsOf key es ++ [i] := by
  rw [inputsOf_append, inputsOf_singleton, hi, Option.bind_some, if_pos rfl]
  rfl

/-- What the handler of an event does is done by the handler of its input. -/
lemma pdHandle_out :
    (pdHandle node (pdRun node es) e).out = (pdLocked node (pdRun node es key) i).out := by
  rw [pdHandle_of_input hi]
  rfl

lemma pdRun_concat : pdRun node (es ++ [e]) key = prefixStep node (pdRun node es key) i := by
  rw [pdRun_apply, pdRun_apply, inputsOf_concat hi, prefixRun, run_concat]
  rfl

end

/-- The last event of a guarded run meets the condition. -/
lemma GuardedRun.last {ok : PathDiscoveryInfo → PdInput → Prop}
    (h : GuardedRun node key ok (es ++ [e])) (hi : e.input = some (key, i)) :
    GuardedRun node key ok es ∧ ok (pdRun node es key) i := by
  rw [GuardedRun, inputsOf_concat hi] at h
  rw [pdRun_apply]
  exact guarded_step h

end Event

/-! ### Concrete runs

The packets of concrete runs: discovery of the prefix `p` at the node `/con`. -/

/-- The name of a consumer node. -/
def conNode : Str := ['/', 'c', 'o', 'n']

/-- The name of a discovery packet with the given probe index. -/
def probeName (probeIdx : Char) : Name := [['p'], ['c', 'o', 'n'], ['p', 'd'], [probeIdx], ['0']]

/-- A discovery Interest of the consumer, with the faces and costs of its nexthops. -/
def probe (probeIdx : Char) (inFace : Face) (hops : List (Face × ℕ)) : PdEvent :=
  .interest (probeName probeIdx) inFace (hops.map fun hop => some ⟨hop.1, hop.2⟩)

/-- A NACK with reason NoRoute for a discovery Interest. -/
def noRoute (inFace : Face) : PdEvent := .nack (probeName '0') inFace nackReasonNoRoute []

/-- A discovery Data packet. -/
def report (inFace : Face) (tierConverged nodeConverged : Bool) : PdEvent :=
  .data (probeName '0') inFace (.discovery tierConverged nodeConverged) [9]

end Mars
