import Mars.Engine.NameTrie
import Mars.Lib.Steps
import Mathlib.Algebra.BigOperators.Group.Finset.Piecewise
import Mathlib.Tactic.Abel

/-!
The pending Interests of the engine.

* `Engine.step`: `Express`, the matching of Data and Nack packets and the timeouts, each of which
  takes entries out of the PIT under the lock; `proceed`: a handler that has taken entries out
  invokes the next callback;
* `Inv`: every Interest is in one place: pending, with a handler, or invoked (`inv_step`);
* `Orderly`: a timeout finds no other node in the place of one that is gone, and a Nack prunes no
  node with entries;
* `pending_interests_stay_matchable`: no callback is invoked twice; and in every orderly run an
  Interest is pending at the node that its name leads to until a handler has it.
-/

namespace Mars

open Function List NameTrie Steps

/-! ### The engine -/

/-- `TimeoutMargin`. -/
def timeoutMargin : Time := 10000000

/-- `pendInt`; the callback is known by the number of its Interest. -/
structure PendInt (δ : Type*) where
  id : ℕ
  deadline : Time
  canBePrefix : Bool
  impSha256 : Option δ
  deriving DecidableEq

/-- A scheduled timer, with the node that its closure keeps. -/
structure EngineTimer where
  id : ℕ
  node : ℕ
  due : Time

/-- A handler that has taken entries out of the PIT; `onData` and `onNack` cancel the timer before
they invoke a callback. -/
structure EngineHandler (δ : Type*) where
  entries : List (PendInt δ)
  cancels : Bool
  deriving DecidableEq

/-- `Engine`, with the names of the Interests expressed and the callbacks invoked so far. -/
structure Engine (κ δ : Type*) where
  pit : NameTrie κ (List (PendInt δ))
  timers : List EngineTimer
  running : List (EngineHandler δ)
  sent : List (List κ)
  invoked : List ℕ

/-- What may happen next. -/
inductive EngineEvent (κ δ : Type*) where
  | express (finalName : List κ) (canBePrefix : Bool) (lifetime now : Time)
  | data (name : List κ) (digest : δ)
  | nack (name : List κ)
  | timeout (id : ℕ) (now : Time)
  | proceed (k : ℕ) (cancelled : Bool)

variable {κ δ : Type*} [DecidableEq κ]

/-- The loop that pops entries: the last one takes the place of one that is popped, and is looked at
next.  The entries before `rest` are kept. -/
def popLoop (test : PendInt δ → Bool) : ℕ → (kept rest ret : List (PendInt δ)) →
    List (PendInt δ) × List (PendInt δ)
  | 0, kept, rest, ret => (kept ++ rest, ret)
  | _ + 1, kept, [], ret => (kept, ret)
  | left + 1, kept, entry :: rest, ret =>
    if test entry then
      popLoop test left kept ((rest.getLast?.toList ++ rest).dropLast) (ret ++ [entry])
    else popLoop test left (kept ++ [entry]) rest ret

/-- The entries that stay, and those that are popped. -/
def pop (test : PendInt δ → Bool) (entries : List (PendInt δ)) :
    List (PendInt δ) × List (PendInt δ) :=
  popLoop test entries.length [] entries []

namespace Engine

/-- `NewEngine`. -/
def new : Engine κ δ := ⟨.new, [], [], [], []⟩

/-- `nodeName` and `impSha256`: the last component may be an implicit digest. -/
def nodeName (digestOf : κ → Option δ) (finalName : List κ) : List κ × Option δ :=
  match finalName.getLast?.bind digestOf with
  | some digest => (finalName.dropLast, some digest)
  | none => (finalName, none)

/-- `Express`. -/
def express (digestOf : κ → Option δ) (s : Engine κ δ) (finalName : List κ) (canBePrefix : Bool)
    (lifetime now : Time) : Engine κ δ :=
  if finalName = [] then s
  else
    let (nodeName, impSha256) := nodeName digestOf finalName
    let (pit, n) := s.pit.matchAlways 0 nodeName
    let id := s.sent.length
    let entry : PendInt δ := ⟨id, now + lifetime, canBePrefix, impSha256⟩
    { s with
      pit := pit.setValue n (pit.val n ++ [entry])
      timers := s.timers ++ [⟨id, n, now + lifetime + timeoutMargin⟩]
      sent := s.sent ++ [nodeName] }

/-- Entries are popped from one node after another. -/
def popNodes (test : ℕ → PendInt δ → Bool) (pit : NameTrie κ (List (PendInt δ))) :
    List ℕ → NameTrie κ (List (PendInt δ)) × List (PendInt δ)
  | [] => (pit, [])
  | cur :: nodes =>
    let popped := pop (test cur) (pit.val cur)
    let more := popNodes test (pit.setValue cur popped.1) nodes
    (more.1, popped.2 ++ more.2)

/-- Data matches an entry of a node of some depth. -/
def matchesData [DecidableEq δ] (length : ℕ) (digest : δ) (depth : ℕ) (entry : PendInt δ) : Bool :=
  !(depth < length && !entry.canBePrefix)
    && (entry.impSha256 == none || entry.impSha256 == some digest)

/-- `onDataMatch`. -/
def onDataMatch [DecidableEq δ] (s : Engine κ δ) (name : List κ) (digest : δ) :
    NameTrie κ (List (PendInt δ)) × List (PendInt δ) :=
  let n := s.pit.prefixMatch 0 name
  let popped := popNodes (fun cur => matchesData name.length digest (s.pit.dep cur)) s.pit
    (s.pit.upwards n)
  (popped.1.pruneIf n isEmpty, popped.2)

/-- `onData`, up to the callbacks. -/
def onData [DecidableEq δ] (s : Engine κ δ) (name : List κ) (digest : δ) : Engine κ δ :=
  let (pit, ret) := s.onDataMatch name digest
  { s with pit, running := s.running ++ [⟨ret, true⟩] }

variable (s : Engine κ δ)

/-- `onNack`, up to the callbacks. -/
def onNack (name : List κ) : Engine κ δ :=
  match s.pit.exactMatch 0 name with
  | none => s
  | some n =>
    { s with
      pit := (s.pit.setValue n []).prune n
      running := s.running ++ [⟨s.pit.val n, true⟩] }

/-- `onExpressTimeout`, up to the callbacks. -/
def onExpressTimeout (n : ℕ) (now : Time) : Engine κ δ :=
  let (entries, ret) := pop (fun entry => entry.deadline ≤ now) (s.pit.val n)
  { s with
    pit := (s.pit.setValue n entries).pruneIf n isEmpty
    running := s.running ++ [⟨ret, false⟩] }

/-- A timer fires, not before it is due. -/
def fire (id : ℕ) (now : Time) : Engine κ δ :=
  match s.timers.find? fun t => t.id = id ∧ t.due ≤ now with
  | none => s
  | some t =>
    { s with timers := s.timers.filter fun t' => t'.id ≠ id }.onExpressTimeout t.node now

/-- A handler goes on to its next entry; the timer may have fired already when it is cancelled. -/
def proceed (k : ℕ) (cancelled : Bool) : Engine κ δ :=
  match s.running[k]? with
  | none => s
  | some ⟨[], _⟩ => { s with running := s.running.eraseIdx k }
  | some ⟨entry :: entries, cancels⟩ =>
    { s with
      timers := if cancels ∧ cancelled then s.timers.filter fun t => t.id ≠ entry.id
        else s.timers
      running := s.running.set k ⟨entries, cancels⟩
      invoked := s.invoked ++ [entry.id] }

/-- The engine after an event. -/
def step [DecidableEq δ] (digestOf : κ → Option δ) (s : Engine κ δ) : EngineEvent κ δ → Engine κ δ
  | .express finalName canBePrefix lifetime now =>
    s.express digestOf finalName canBePrefix lifetime now
  | .data name digest => s.onData name digest
  | .nack name => s.onNack name
  | .timeout id now => s.fire id now
  | .proceed k cancelled => s.proceed k cancelled

end Engine

/-! ### Popping entries -/

section Pop

variable {test : PendInt δ → Bool} {entries : List (PendInt δ)}

/-- The last entry moves to the front. -/
lemma perm_moveLast (rest : List (PendInt δ)) :
    ((rest.getLast?.toList ++ rest).dropLast).Perm rest := by
  rcases eq_nil_or_concat rest with rfl | ⟨init, last, rfl⟩
  · exact .refl _
  · rw [concat_eq_append, getLast?_concat, Option.toList_some, singleton_append,
      ← cons_append, dropLast_concat]
    exact (perm_append_singleton last init).symm

lemma popLoop_spec {left : ℕ} :
    ∀ (kept rest ret : List (PendInt δ)), rest.length ≤ left →
    (popLoop test left kept rest ret).1.Perm (kept ++ rest.filter fun e => !test e)
      ∧ (popLoop test left kept rest ret).2.Perm (ret ++ rest.filter test) := by
  induction left with
  | zero =>
    intro kept rest ret hle
    obtain rfl := eq_nil_of_length_eq_zero (Nat.le_zero.mp hle)
    exact ⟨by simp [popLoop], by simp [popLoop]⟩
  | succ left ih =>
    intro kept rest ret hle
    cases rest with
    | nil => exact ⟨by simp [popLoop], by simp [popLoop]⟩
    | cons entry rest =>
      have hperm := perm_moveLast rest
      rw [popLoop]
      split_ifs with htest
      · have hle' : ((rest.getLast?.toList ++ rest).dropLast).length ≤ left := by
          rw [hperm.length_eq]
          exact Nat.le_of_succ_le_succ hle
        obtain ⟨hkept, hret⟩ := ih kept _ (ret ++ [entry]) hle'
        rw [filter_cons_of_neg (by simpa using htest), filter_cons_of_pos htest]
        refine ⟨hkept.trans ((hperm.filter _).append_left kept), hret.trans ?_⟩
        rw [append_assoc]
        exact ((hperm.filter test).cons entry).append_left ret
      · obtain ⟨hkept, hret⟩ := ih (kept ++ [entry]) rest ret
          (Nat.le_of_succ_le_succ hle)
        rw [filter_cons_of_pos (by simpa using htest), filter_cons_of_neg htest]
        rw [append_assoc] at hkept
        exact ⟨hkept, hret⟩

lemma perm_pop : ((pop test entries).1 ++ (pop test entries).2).Perm entries := by
  obtain ⟨hkept, hret⟩ := popLoop_spec [] entries [] le_rfl
  refine (hkept.append hret).trans ?_
  rw [nil_append, nil_append]
  exact perm_append_comm.trans (filter_append_perm test entries)

lemma mem_pop_snd {e : PendInt δ} : e ∈ (pop test entries).2 ↔ e ∈ entries ∧ test e = true := by
  obtain ⟨-, hret⟩ := popLoop_spec [] entries [] le_rfl
  rw [pop, hret.mem_iff, nil_append, mem_filter]

end Pop

/-! ### Where the Interests are -/

/-- The Interests that are pending. -/
def pitIds (h : NameTrie κ (List (PendInt δ))) : Multiset ℕ :=
  ∑ n ∈ Finset.range h.next, ((h.val n).map PendInt.id : Multiset ℕ)

/-- The Interests, wherever they are. -/
def Engine.ids (s : Engine κ δ) : Multiset ℕ :=
  pitIds s.pit + ((s.running.flatMap (·.entries)).map PendInt.id : Multiset ℕ)
    + (s.invoked : Multiset ℕ)

variable {h h' : NameTrie κ (List (PendInt δ))} {n : ℕ} {ret : List (PendInt δ)}

omit [DecidableEq κ] in
/-- The value of a node changes. -/
lemma pitIds_setValue (hn : n < h.next) {entries more less : List (PendInt δ)}
    (hperm : (entries ++ less).Perm (h.val n ++ more)) :
    pitIds (h.setValue n entries) + (less.map PendInt.id : Multiset ℕ)
      = pitIds h + (more.map PendInt.id : Multiset ℕ) := by
  have hmem : n ∈ Finset.range h.next := Finset.mem_range.mpr hn
  have hval : (fun m => (((h.setValue n entries).val m).map PendInt.id : Multiset ℕ))
      = update (fun m => ((h.val m).map PendInt.id : Multiset ℕ)) n
        (entries.map PendInt.id : Multiset ℕ) := by
    funext m
    exact apply_update (fun _ es => (es.map PendInt.id : Multiset ℕ)) h.val n entries m
  have hids : (entries.map PendInt.id : Multiset ℕ) + (less.map PendInt.id : Multiset ℕ)
      = ((h.val n).map PendInt.id : Multiset ℕ) + (more.map PendInt.id : Multiset ℕ) := by
    rw [Multiset.coe_add, Multiset.coe_add, ← map_append, ← map_append]
    exact Multiset.coe_eq_coe.mpr (hperm.map _)
  change ∑ m ∈ Finset.range h.next, _ + _ = _
  rw [hval, Finset.sum_update_of_mem hmem, pitIds,
    Finset.sum_eq_add_sum_sdiff_singleton_of_mem hmem, add_right_comm, hids, add_right_comm]

/-- Entries are taken out, and links may go. -/
structure Reduces (h h' : NameTrie κ (List (PendInt δ))) (ret : List (PendInt δ)) : Prop where
  next : h'.next = h.next
  up : h'.up = h.up
  dep : h'.dep = h.dep
  lookup : ∀ {n c m}, (h'.chd n).lookup c = some m → (h.chd n).lookup c = some m
  val : ∀ n, h'.val n ⊆ h.val n
  ids : pitIds h' + (ret.map PendInt.id : Multiset ℕ) = pitIds h

namespace Reduces

lemma trans {h'' : NameTrie κ (List (PendInt δ))} {ret' : List (PendInt δ)}
    (h₁ : Reduces h h' ret) (h₂ : Reduces h' h'' ret') : Reduces h h'' (ret ++ ret') where
  next := h₂.next.trans h₁.next
  up := h₂.up.trans h₁.up
  dep := h₂.dep.trans h₁.dep
  lookup := fun hm => h₁.lookup (h₂.lookup hm)
  val := fun n => List.Subset.trans (h₂.val n) (h₁.val n)
  ids := by
    rw [map_append, ← Multiset.coe_add, add_comm (ret.map PendInt.id : Multiset ℕ),
      ← add_assoc, h₂.ids, h₁.ids]

lemma of_shrinks (hshrinks : NameTrie.Shrinks h h') : Reduces h h' [] where
  next := hshrinks.next
  up := hshrinks.up
  dep := hshrinks.dep
  lookup := hshrinks.lookup
  val := fun n => by
    rw [hshrinks.val]
    exact List.Subset.refl _
  ids := by
    rw [map_nil, Multiset.coe_nil, add_zero, pitIds, pitIds, hshrinks.next, hshrinks.val]

lemma of_setValue (hn : n < h.next) {entries : List (PendInt δ)}
    (hperm : (entries ++ ret).Perm (h.val n)) : Reduces h (h.setValue n entries) ret where
  next := rfl
  up := rfl
  dep := rfl
  lookup := id
  val := (forall_update_iff h.val fun m es => es ⊆ h.val m).mpr
    ⟨fun _ he => hperm.subset (mem_append_left ret he), fun _ _ => List.Subset.refl _⟩
  ids := by
    have hperm' : (entries ++ ret).Perm (h.val n ++ []) := by rwa [append_nil]
    have hids := pitIds_setValue hn hperm'
    rwa [map_nil, Multiset.coe_nil, add_zero] at hids

lemma pruneIf (hreduces : Reduces h h' ret) (n : ℕ) (pred : List (PendInt δ) → Bool) :
    Reduces h (h'.pruneIf n pred) ret := by
  have hprune := hreduces.trans (of_shrinks (shrinks_pruneIf h' n pred))
  rwa [append_nil] at hprune

lemma of_pop (hn : n < h.next) (test : PendInt δ → Bool) :
    Reduces h (h.setValue n (pop test (h.val n)).1) (pop test (h.val n)).2 :=
  of_setValue hn perm_pop

lemma of_popNodes (test : ℕ → PendInt δ → Bool) {nodes : List ℕ} :
    ∀ {h : NameTrie κ (List (PendInt δ))}, (∀ cur ∈ nodes, cur < h.next) →
      Reduces h (Engine.popNodes test h nodes).1 (Engine.popNodes test h nodes).2 := by
  induction nodes with
  | nil => exact fun {h} _ => of_shrinks (.refl h)
  | cons cur nodes ih =>
    intro h hlt
    have hcur := hlt cur mem_cons_self
    exact (of_pop hcur (test cur)).trans (ih fun k hk => hlt k (mem_cons_of_mem cur hk))

lemma ok (hreduces : Reduces h h' ret) (hok : h.Ok) : h'.Ok where
  pos := hreduces.next ▸ hok.pos
  root := hreduces.up ▸ hok.root
  dep_root := hreduces.dep ▸ hok.dep_root
  link := by
    rw [hreduces.next, hreduces.up, hreduces.dep]
    exact hok.link
  child := fun hm => by
    rw [hreduces.next, hreduces.up]
    exact hok.child (hreduces.lookup hm)
  fresh := fun n hn => by
    rw [hreduces.next] at hn
    obtain ⟨hval, hup⟩ := hok.fresh n hn
    refine ⟨eq_nil_of_subset_nil ?_, by rw [hreduces.up, hup]⟩
    exact List.Subset.trans (hreduces.val n) (by rw [hval]; exact List.Subset.refl _)

end Reduces

/-- What holds of every engine: **every Interest is in one place**. -/
structure Inv (s : Engine κ δ) : Prop where
  ok : s.pit.Ok
  ids : s.ids = Multiset.range s.sent.length
  names : ∀ n, ∀ e ∈ s.pit.val n, ∃ name, s.sent[e.id]? = some name
    ∧ NameTrie.Named s.pit.up n name
  timers : ∀ t ∈ s.timers, t.node < s.pit.next

variable {s : Engine κ δ}

lemma inv_new : Inv (Engine.new : Engine κ δ) where
  ok := ok_new
  ids := rfl
  names := fun _ _ he => absurd he not_mem_nil
  timers := fun _ ht => absurd ht not_mem_nil

lemma pitIds_grows (hok : h.Ok) (hgrows : NameTrie.Grows h h') : pitIds h' = pitIds h := by
  rw [pitIds, pitIds, hgrows.val]
  refine (Finset.sum_subset (Finset.range_mono hgrows.next) fun n _ hn => ?_).symm
  rw [(hok.fresh n (not_lt.mp fun hlt => hn (Finset.mem_range.mpr hlt))).1]
  rfl

lemma inv_express {digestOf : κ → Option δ} (hinv : Inv s) {finalName : List κ}
    {canBePrefix : Bool} {lifetime now : Time} :
    Inv (s.express digestOf finalName canBePrefix lifetime now) := by
  rw [Engine.express]
  split_ifs with hnil
  · exact hinv
  obtain ⟨name, impSha256⟩ := Engine.nodeName digestOf finalName
  obtain ⟨hok, hgrows, hlt, hnamed, -, -⟩ := matchAlways_spec name hinv.ok hinv.ok.pos
  dsimp only
  generalize s.pit.matchAlways 0 name = found at hok hgrows hlt hnamed
  obtain ⟨pit, n⟩ := found
  dsimp only at hok hgrows hlt hnamed ⊢
  generalize hentry : (⟨s.sent.length, now + lifetime, canBePrefix, impSha256⟩ : PendInt δ) = entry
  have hid : entry.id = s.sent.length := by rw [← hentry]
  constructor
  case ok => exact hok.setValue hlt _
  case ids =>
    have hids := pitIds_setValue hlt (show (pit.val n ++ [entry] ++ []).Perm (pit.val n ++ [entry])
      by rw [append_nil])
    rw [map_nil, Multiset.coe_nil, add_zero, pitIds_grows hinv.ok hgrows] at hids
    have hrest := hinv.ids
    rw [Engine.ids] at hrest ⊢
    dsimp only
    rw [hids, add_right_comm (pitIds s.pit), add_right_comm _ ([entry].map PendInt.id : Multiset ℕ),
      hrest, length_append, length_singleton, Multiset.range_succ, add_comm,
      map_singleton, hid]
    rfl
  case names =>
    intro m e he
    have hcases : e ∈ pit.val m ∨ m = n ∧ e = entry := by
      change e ∈ update pit.val n (pit.val n ++ [entry]) m at he
      rcases eq_or_ne m n with rfl | hne
      · rw [update_self] at he
        rcases mem_append.mp he with he | he
        · exact .inl he
        · exact .inr ⟨rfl, mem_singleton.mp he⟩
      · rw [update_of_ne hne] at he
        exact .inl he
    rcases hcases with hold | ⟨rfl, rfl⟩
    · rw [hgrows.val] at hold
      obtain ⟨name', hsent, hnamed'⟩ := hinv.names m e hold
      have hm : m < s.pit.next := by
        by_contra hge
        rw [(hinv.ok.fresh m (not_lt.mp hge)).1] at hold
        exact absurd hold List.not_mem_nil
      have hlen : e.id < s.sent.length := (List.getElem?_eq_some_iff.mp hsent).1
      exact ⟨name', (List.getElem?_append_left hlen).trans hsent, hgrows.named hinv.ok hm hnamed'⟩
    · exact ⟨name, by rw [hid]; exact List.getElem?_concat_length, hnamed .root⟩
  case timers =>
    intro t ht
    rcases List.mem_append.mp ht with ht | ht
    · exact (hinv.timers t ht).trans_le hgrows.next
    · rw [mem_singleton.mp ht]
      exact hlt

/-- A handler takes entries out of the PIT. -/
lemma Inv.reduce (hinv : Inv s) (hreduces : Reduces s.pit h' ret) {timers : List EngineTimer}
    (htimers : timers ⊆ s.timers) {cancels : Bool} :
    Inv { s with pit := h', timers := timers, running := s.running ++ [⟨ret, cancels⟩] } where
  ok := hreduces.ok hinv.ok
  ids := by
    have hids := hinv.ids
    rw [Engine.ids, ← hreduces.ids] at hids
    rw [Engine.ids, ← hids, flatMap_append, flatMap_singleton, map_append,
      ← Multiset.coe_add, ← add_assoc, add_right_comm (pitIds h')]
  names := fun n e he => by
    rw [hreduces.up]
    exact hinv.names n e (hreduces.val n he)
  timers := fun t ht => by
    rw [hreduces.next]
    exact hinv.timers t (htimers ht)

/-- The entries of a handler are among those of all. -/
lemma flatMap_split {running : List (EngineHandler δ)} {k : ℕ} {handler : EngineHandler δ}
    (hk : running[k]? = some handler) : running.flatMap (·.entries)
      = (running.take k).flatMap (·.entries) ++ (handler.entries
        ++ (running.drop (k + 1)).flatMap (·.entries)) := by
  obtain ⟨hlt, rfl⟩ := List.getElem?_eq_some_iff.mp hk
  rw [← flatMap_cons, ← drop_eq_getElem_cons hlt, ← flatMap_append, take_append_drop]

lemma perm_flatMap_set {running : List (EngineHandler δ)} {k : ℕ} {e : PendInt δ}
    {es : List (PendInt δ)} {cancels : Bool} (hk : running[k]? = some ⟨e :: es, cancels⟩) :
    (running.flatMap (·.entries)).Perm
      (e :: (running.set k ⟨es, cancels⟩).flatMap (·.entries)) := by
  rw [flatMap_split hk, set_eq_take_append_cons_drop,
    if_pos (List.getElem?_eq_some_iff.mp hk).1, flatMap_append, flatMap_cons]
  exact perm_middle

lemma inv_proceed (hinv : Inv s) {k : ℕ} {cancelled : Bool} : Inv (s.proceed k cancelled) := by
  rw [Engine.proceed]
  rcases hk : s.running[k]? with _ | ⟨_ | ⟨e, es⟩, cancels⟩
  · exact hinv
  · refine ⟨hinv.ok, ?_, hinv.names, hinv.timers⟩
    rw [Engine.ids]
    dsimp only
    rw [eraseIdx_eq_take_drop_succ, flatMap_append]
    exact flatMap_split hk ▸ hinv.ids
  · refine ⟨hinv.ok, ?_, hinv.names, fun t ht => hinv.timers t ?_⟩
    · have hids := hinv.ids
      have hperm := Multiset.coe_eq_coe.mpr ((perm_flatMap_set hk).map PendInt.id)
      rw [Engine.ids, hperm, map_cons, ← Multiset.cons_coe, ← Multiset.singleton_add] at hids
      rw [Engine.ids]
      dsimp only
      rw [← hids, ← Multiset.coe_add, Multiset.coe_singleton]
      abel
    · dsimp only at ht
      split_ifs at ht
      · exact mem_of_mem_filter ht
      · exact ht

/-- The entries that Data is matched with are taken out before any node is pruned. -/
lemma reduces_popNodes (hok : h.Ok) (test : ℕ → PendInt δ → Bool) (name : List κ) :
    let nodes := h.upwards (h.prefixMatch 0 name)
    Reduces h (Engine.popNodes test h nodes).1 (Engine.popNodes test h nodes).2 :=
  .of_popNodes test fun cur hcur => (le_of_mem_upwards hok cur hcur).trans_lt
    (inTree_prefixMatch hok name).1

lemma inv_fire (hinv : Inv s) {id : ℕ} {now : Time} : Inv (s.fire id now) := by
  rw [Engine.fire]
  cases hfind : s.timers.find? fun t => t.id = id ∧ t.due ≤ now with
  | none => exact hinv
  | some t =>
    have hlt := hinv.timers t (mem_of_find?_eq_some hfind)
    exact hinv.reduce ((Reduces.of_pop hlt _).pruneIf t.node _)
      (fun _ ht => mem_of_mem_filter ht)

lemma inv_step [DecidableEq δ] {digestOf : κ → Option δ} (hinv : Inv s) {event : EngineEvent κ δ} :
    Inv (s.step digestOf event) := by
  cases event with
  | express finalName canBePrefix lifetime now => exact inv_express hinv
  | data name digest =>
    exact hinv.reduce ((reduces_popNodes hinv.ok _ name).pruneIf _ _) (List.Subset.refl _)
  | nack name =>
    rw [Engine.step, Engine.onNack]
    cases hmatch : s.pit.exactMatch 0 name with
    | none => exact hinv
    | some n =>
      have hn := (inTree_exactMatch hinv.ok hmatch).1
      have htake := Reduces.of_setValue hn
        (show ([] ++ s.pit.val n).Perm (s.pit.val n) from .refl _)
      exact hinv.reduce (htake.pruneIf n _) (List.Subset.refl _)
  | timeout id now => exact inv_fire hinv
  | proceed k cancelled => exact inv_proceed hinv

/-! ### Orderly runs -/

/-- A timeout finds no other node in the place of one that is gone, and a Nack prunes no node with
entries. -/
def Engine.Orderly (s : Engine κ δ) : EngineEvent κ δ → Prop
  | .nack name => ∀ n ∈ s.pit.exactMatch 0 name, s.pit.MayGo n
  | .timeout id _ =>
    ∀ t ∈ s.timers, t.id = id → s.pit.Unreplaced (s.pit.dep t.node) t.node
  | _ => True

instance [DecidableEq δ] (s : Engine κ δ) : ∀ event, Decidable (s.Orderly event)
  | .nack name => inferInstanceAs (Decidable (∀ n ∈ s.pit.exactMatch 0 name, s.pit.MayGo n))
  | .timeout id _ => inferInstanceAs (Decidable (∀ t ∈ s.timers, t.id = id →
      s.pit.Unreplaced (s.pit.dep t.node) t.node))
  | .express .. | .data .. | .proceed .. => isTrue trivial

/-- Entries are taken out, and the links stay. -/
lemma goneEmpty_of_val (hempty : h.GoneEmpty) (hup : h'.up = h.up) (hchd : h'.chd = h.chd)
    (hval : ∀ n, h'.val n ⊆ h.val n) : h'.GoneEmpty := by
  intro n hn
  have hold : ¬ h.Linked n := by
    rw [NameTrie.Linked, hup, hchd] at hn
    exact hn
  obtain ⟨hnil, hnone⟩ := hempty n hold
  refine ⟨eq_nil_of_subset_nil ?_, by rw [hchd, hnone]⟩
  exact List.Subset.trans (hval n) (by rw [hnil]; exact List.Subset.refl _)

/-- After entries have been taken out, empty nodes are pruned. -/
lemma goneEmpty_pruneIf (hempty : h.GoneEmpty) (hplace : h.Unreplaced (h.dep n) n) :
    (h.pruneIf n isEmpty).GoneEmpty :=
  goneEmpty_pruneUp hempty
    (prunesEmpty_of_unreplaced (fun _ hnil => isEmpty_iff.mp hnil) hplace)

omit [DecidableEq κ] in
lemma popNodes_links {test : ℕ → PendInt δ → Bool} {nodes : List ℕ} :
    ∀ h : NameTrie κ (List (PendInt δ)), (Engine.popNodes test h nodes).1.up = h.up
      ∧ (Engine.popNodes test h nodes).1.chd = h.chd := by
  induction nodes with
  | nil => exact fun _ => ⟨rfl, rfl⟩
  | cons cur nodes ih => exact fun h => ih (h.setValue cur _)

lemma goneEmpty_onDataMatch [DecidableEq δ] (hok : s.pit.Ok) (hempty : s.pit.GoneEmpty)
    (name : List κ) (digest : δ) : (s.onDataMatch name digest).1.GoneEmpty := by
  have hpops := reduces_popNodes hok
    (fun cur => Engine.matchesData name.length digest (s.pit.dep cur)) name
  obtain ⟨hup, hchd⟩ := popNodes_links s.pit
  have hempty' := goneEmpty_of_val hempty hup hchd hpops.val
  refine goneEmpty_pruneIf hempty' (unreplaced_of_linked (hpops.ok hok) hempty' ?_ _)
  rw [NameTrie.Linked, hup, hchd]
  exact (inTree_prefixMatch hok name).2

lemma goneEmpty_express (digestOf : κ → Option δ) (hinv : Inv s) (hempty : s.pit.GoneEmpty)
    (finalName : List κ) (canBePrefix : Bool) (lifetime now : Time) :
    (s.express digestOf finalName canBePrefix lifetime now).pit.GoneEmpty := by
  rw [Engine.express]
  split_ifs with hnil
  · exact hempty
  obtain ⟨name, impSha256⟩ := Engine.nodeName digestOf finalName
  have hmatch := matchAlways_spec name hinv.ok hinv.ok.pos
  have hlinked := hmatch.linked (.inl rfl)
  have hempty' := hmatch.goneEmpty hempty (.inl rfl)
  intro m hm
  have hm : ¬ (s.pit.matchAlways 0 name).1.Linked m := hm
  have hne : m ≠ (s.pit.matchAlways 0 name).2 := by
    rintro rfl
    exact hm hlinked
  exact ⟨(update_of_ne hne _ _).trans (hempty' m hm).1, (hempty' m hm).2⟩

lemma goneEmpty_fire (hinv : Inv s) (hempty : s.pit.GoneEmpty) {id : ℕ} {now : Time}
    (horderly : s.Orderly (.timeout id now)) : (s.fire id now).pit.GoneEmpty := by
  rw [Engine.fire]
  cases hfind : s.timers.find? fun t => t.id = id ∧ t.due ≤ now with
  | none => exact hempty
  | some t =>
    have hmem := mem_of_find?_eq_some hfind
    have hid : t.id = id := by
      have htest := find?_some hfind
      exact (of_decide_eq_true htest).1
    have hpop := Reduces.of_pop (hinv.timers t hmem) fun e => e.deadline ≤ now
    have hempty' : (s.pit.setValue t.node _).GoneEmpty :=
      goneEmpty_of_val hempty rfl rfl hpop.val
    exact goneEmpty_pruneIf hempty' ((horderly t hmem hid).mono rfl fun hlookup => hlookup)

/-- **In an orderly step no node with entries is lost.** -/
lemma goneEmpty_step [DecidableEq δ] {digestOf : κ → Option δ} (hinv : Inv s)
    (hempty : s.pit.GoneEmpty) {event : EngineEvent κ δ} (horderly : s.Orderly event) :
    (s.step digestOf event).pit.GoneEmpty := by
  cases event with
  | express finalName canBePrefix lifetime now =>
    exact goneEmpty_express digestOf hinv hempty _ _ _ _
  | data name digest => exact goneEmpty_onDataMatch hinv.ok hempty name digest
  | nack name =>
    rw [Engine.step, Engine.onNack]
    cases hmatch : s.pit.exactMatch 0 name with
    | none => exact hempty
    | some n =>
      exact goneEmpty_prune hinv.ok hempty (inTree_exactMatch hinv.ok hmatch)
        (horderly n hmatch)
  | timeout id now => exact goneEmpty_fire hinv hempty horderly
  | proceed k cancelled =>
    have hpit : (s.proceed k cancelled).pit = s.pit := by
      rw [Engine.proceed]
      split <;> rfl
    rw [Engine.step, hpit]
    exact hempty

/-! ### Matching -/

/-- Data satisfies an Interest with this node name. -/
def PendInt.SatisfiedBy (e : PendInt δ) (name dataName : List κ) (digest : δ) : Prop :=
  (name = dataName ∨ e.canBePrefix ∧ name <+: dataName) ∧ ∀ d ∈ e.impSha256, d = digest

omit [DecidableEq κ] in
lemma mem_popNodes {test : ℕ → PendInt δ → Bool} {nodes : List ℕ} (hnodup : nodes.Nodup) :
    ∀ {h : NameTrie κ (List (PendInt δ))} {n : ℕ} {e : PendInt δ}, n ∈ nodes → e ∈ h.val n →
      test n e = true → e ∈ (Engine.popNodes test h nodes).2 := by
  induction nodes with
  | nil => exact fun hn => absurd hn not_mem_nil
  | cons cur nodes ih =>
    intro h n e hn he htest
    rw [Engine.popNodes, mem_append]
    rcases mem_cons.mp hn with rfl | hlater
    · exact .inl (mem_pop_snd.mpr ⟨he, htest⟩)
    · have hne : n ≠ cur := by
        rintro rfl
        exact (nodup_cons.mp hnodup).1 hlater
      refine .inr (ih (nodup_cons.mp hnodup).2 hlater ?_ htest)
      change e ∈ update h.val cur _ n
      rwa [update_of_ne hne]

lemma dep_of_named (hok : h.Ok) {name : List κ} (hnamed : NameTrie.Named h.up n name) :
    h.dep n = name.length := by
  induction hnamed with
  | root => exact hok.dep_root
  | child hup _ ih =>
    rw [(hok.of_up hup).2.2, ih, length_append]
    rfl

/-- **Data that satisfies a pending Interest takes it out.** -/
lemma mem_onDataMatch [DecidableEq δ] (hok : s.pit.Ok) {name dataName : List κ} {digest : δ}
    {e : PendInt δ} (hmatch : s.pit.exactMatch 0 name = some n)
    (hnamed : NameTrie.Named s.pit.up n name) (he : e ∈ s.pit.val n)
    (hsat : e.SatisfiedBy name dataName digest) : e ∈ (s.onDataMatch dataName digest).2 := by
  obtain ⟨hname, hdigest⟩ := hsat
  obtain ⟨rest, rfl⟩ : name <+: dataName := by
    rcases hname with rfl | ⟨-, hstart⟩
    · exact prefix_rfl
    · exact hstart
  change e ∈ (Engine.popNodes (fun cur => Engine.matchesData (name ++ rest).length digest
    (s.pit.dep cur)) s.pit _).2
  refine mem_popNodes ((pairwise_upwards hok).imp ne_of_gt)
    (mem_upwards_prefixMatch hok hmatch) he ?_
  rw [Engine.matchesData, dep_of_named hok hnamed, Bool.and_eq_true]
  constructor
  · rcases hname with hrest | ⟨hprefixed, -⟩
    · rw [← hrest]
      simp
    · simp [hprefixed]
  · cases himp : e.impSha256 with
    | none => rfl
    | some d => simp [hdigest d himp]

/-- **Pending Interests stay matchable.**  No callback is invoked twice.  In a run in which no
timeout finds another node in the place of one that is gone and no Nack prunes a node with entries,
an Interest is with a handler or has been invoked, or it is pending at the node that its name leads
to, and Data that satisfies it takes it out. -/
theorem pending_interests_stay_matchable [DecidableEq δ] (digestOf : κ → Option δ)
    (events : List (EngineEvent κ δ)) :
    let s := run (Engine.step digestOf) .new events
    s.invoked.Nodup
    ∧ (Steps.Guarded (Engine.step digestOf) Engine.Orderly .new events →
      ∀ id name, s.sent[id]? = some name →
        id ∈ s.invoked ∨ (∃ handler ∈ s.running, ∃ e ∈ handler.entries, e.id = id)
        ∨ ∃ n e, s.pit.exactMatch 0 name = some n ∧ s.pit.prefixMatch 0 name = n
          ∧ e ∈ s.pit.val n ∧ e.id = id
          ∧ ∀ dataName digest, e.SatisfiedBy name dataName digest →
            e ∈ (s.onDataMatch dataName digest).2) := by
  intro s
  have hinv : Inv s := run_invariant (I := Inv)
    (fun _ event hs => inv_step hs) inv_new events
  constructor
  · have hnodup : s.ids.Nodup := hinv.ids ▸ Multiset.nodup_range _
    rw [Engine.ids] at hnodup
    exact Multiset.coe_nodup.mp (Multiset.nodup_of_le (Multiset.le_add_left _ _) hnodup)
  · intro hguarded id name hsent
    have hempty : s.pit.GoneEmpty := by
      refine (guarded_invariant (I := fun s => Inv s ∧ s.pit.GoneEmpty)
        (fun _ event hs horderly => ⟨inv_step hs.1,
          goneEmpty_step hs.1 hs.2 horderly⟩) ⟨inv_new, ?_⟩ hguarded).2
      exact fun _ _ => ⟨rfl, rfl⟩
    have hmem : id ∈ s.ids := by
      rw [hinv.ids, Multiset.mem_range]
      exact (List.getElem?_eq_some_iff.mp hsent).1
    rw [Engine.ids, Multiset.mem_add, Multiset.mem_add] at hmem
    rcases hmem with (hpit | hrunning) | hinvoked
    · obtain ⟨n, -, hn⟩ := Multiset.mem_sum.mp hpit
      obtain ⟨e, he, rfl⟩ := List.mem_map.mp (Multiset.mem_coe.mp hn)
      obtain ⟨name', hsent', hnamed⟩ := hinv.names n e he
      obtain rfl : name' = name := Option.some.inj (hsent'.symm.trans hsent)
      have hlinked : s.pit.Linked n := by
        by_contra hout
        rw [(hempty n hout).1] at he
        exact absurd he not_mem_nil
      have hmatch := exactMatch_of_linked hinv.ok hempty hnamed hlinked
      have hprefixed := prefixMatch_append hmatch []
      rw [append_nil] at hprefixed
      exact .inr (.inr ⟨n, e, hmatch, hprefixed, he, rfl,
        fun _ _ hsat => mem_onDataMatch hinv.ok hmatch hnamed he hsat⟩)
    · obtain ⟨e, he, rfl⟩ := mem_map.mp (Multiset.mem_coe.mp hrunning)
      obtain ⟨handler, hhandler, he⟩ := mem_flatMap.mp he
      exact .inr (.inl ⟨handler, hhandler, e, he, rfl⟩)
    · exact .inl (Multiset.mem_coe.mp hinvoked)

/-- Data for a longer name takes one of two Interests out. -/
def satisfiedBelow : List (EngineEvent ℕ ℕ) :=
  [.express [1] false 20000000 0, .express [1, 2] true 20000000 0, .data [1, 2, 3] 5,
    .proceed 0 true]

theorem pending_interests_stay_matchable_below :
    let s := run (Engine.step fun _ => none) .new satisfiedBelow
    s.sent[0]? = some [1] ∧ s.invoked = [1] ∧ s.running = [⟨[], true⟩]
    ∧ (0 ∈ s.invoked ∨ (∃ handler ∈ s.running, ∃ e ∈ handler.entries, e.id = 0)
        ∨ ∃ n e, s.pit.exactMatch 0 [1] = some n ∧ s.pit.prefixMatch 0 [1] = n
          ∧ e ∈ s.pit.val n ∧ e.id = 0
          ∧ ∀ dataName digest, e.SatisfiedBy [1] dataName digest →
            e ∈ (s.onDataMatch dataName digest).2) := by
  refine ⟨by decide +kernel, by decide +kernel, by decide +kernel, ?_⟩
  exact (pending_interests_stay_matchable (fun _ => none) satisfiedBelow).2 (by decide +kernel) 0
    [1] (by decide +kernel)

/-- A Nack for a name below a pending Interest. -/
def nackBelow : List (EngineEvent ℕ ℕ) :=
  [.express [1] false 20000000 0, .express [1, 2] false 20000000 0, .nack [1, 2]]

/-- A name is expressed again between the timeout that prunes its node and one that holds the
pruned node. -/
def expressedAgain : List (EngineEvent ℕ ℕ) :=
  [.express [1] false 20000000 0, .express [1] false 6000000 5000000, .timeout 1 21000000,
    .express [1] false 20000000 22000000, .timeout 0 30000000]

/-- A Nack prunes a node with entries, and a timeout prunes the node that has replaced its own: the
Interest is pending no more and no callback of it is to come. -/
theorem pruned_while_pending :
    (let s := run (Engine.step fun _ => none) .new nackBelow
     s.sent[0]? = some [1] ∧ s.pit.exactMatch 0 [1] = none ∧ s.invoked = []
      ∧ s.running.map (fun handler => handler.entries.map PendInt.id) = [[1]]
      ∧ (s.onDataMatch [1] 5).2 = [])
    ∧ (let s := run (Engine.step fun _ => none) .new expressedAgain
       s.sent[2]? = some [1] ∧ s.pit.exactMatch 0 [1] = none ∧ s.invoked = []
      ∧ s.running.map (fun handler => handler.entries.map PendInt.id) = [[0, 1], []]
      ∧ (s.onDataMatch [1] 5).2 = []) := by
  refine ⟨?_, ?_⟩ <;> decide +kernel

end Mars
