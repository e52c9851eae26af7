import Mathlib.Data.List.Basic

/-!
Handlers that return early: a body is a sequence of phases, each of which either
hands its state on or returns, and emits outputs on the way.

* `Outcome`, `go`, `ret`, `bind`: the outcome of a phase and the sequencing of two;
* `Ensures`: a postcondition of three parts, one for the state handed on, one
  for the state returned early and one for every output;
* `Ensures.bind`, `Ensures.mono`, `Ensures.state`, `Ensures.mem_out`: the rules with
  which a handler's postcondition is assembled from those of its phases.
-/

/-- The outcome of a phase: whether the handler has returned, the state it
leaves and what it has emitted, in order. -/
structure Outcome (σ ω : Type*) where
  returned : Bool
  state : σ
  out : List ω

namespace Outcome

variable {σ ω : Type*} {out : List ω}

/-- The phase ends and the handler goes on. -/
def go (s : σ) (out : List ω) : Outcome σ ω := ⟨false, s, out⟩

/-- The handler returns. -/
def ret (s : σ) (out : List ω) : Outcome σ ω := ⟨true, s, out⟩

/-- Run the next phase unless the handler has returned. -/
def bind (f : Outcome σ ω) (g : σ → Outcome σ ω) : Outcome σ ω :=
  if f.returned then f
  else ⟨(g f.state).returned, (g f.state).state, f.out ++ (g f.state).out⟩

@[simp] lemma go_state {s : σ} : (go s out).state = s := rfl

@[simp] lemma go_out {s : σ} : (go s out).out = out := rfl

@[simp] lemma ret_state {s : σ} : (ret s out).state = s := rfl

@[simp] lemma ret_out {s : σ} : (ret s out).out = out := rfl

@[simp] lemma ret_bind {s : σ} (g : σ → Outcome σ ω) : (ret s out).bind g = ret s out := rfl

lemma go_bind {s : σ} (g : σ → Outcome σ ω) :
    (go s out).bind g = ⟨(g s).returned, (g s).state, out ++ (g s).out⟩ := rfl

@[simp] lemma go_nil_bind {s : σ} (g : σ → Outcome σ ω) : (go s []).bind g = g s := rfl

lemma bind_of_not_returned {f : Outcome σ ω} (h : f.returned = false) (g : σ → Outcome σ ω) :
    f.bind g = ⟨(g f.state).returned, (g f.state).state, f.out ++ (g f.state).out⟩ := by
  simp [Outcome.bind, h]

/-- The postcondition of a phase: `G` of a state handed on, `R` of a state
returned, `O` of every output. -/
structure Ensures (G R : σ → Prop) (O : ω → Prop) (f : Outcome σ ω) : Prop where
  onGo : f.returned = false → G f.state
  onRet : f.returned = true → R f.state
  onOut : ∀ a ∈ f.out, O a

variable {G G' R R' : σ → Prop} {O O' : ω → Prop} {f : Outcome σ ω} {s : σ} {os : List ω}

lemma ensures_go (hG : G s) (hO : ∀ a ∈ os, O a) : (go s os).Ensures G R O :=
  ⟨fun _ => hG, fun h => (Bool.false_ne_true h).elim, hO⟩

lemma ensures_ret (hR : R s) (hO : ∀ a ∈ os, O a) : (ret s os).Ensures G R O :=
  ⟨fun h => (Bool.false_ne_true h.symm).elim, fun _ => hR, hO⟩

/-- Two phases in sequence: the second starts from what the first hands on. -/
theorem Ensures.bind {g : σ → Outcome σ ω} (hf : f.Ensures G R O)
    (hg : ∀ s, G s → (g s).Ensures G' R O) : (f.bind g).Ensures G' R O := by
  unfold Outcome.bind
  cases hret : f.returned with
  | true =>
    refine ⟨fun h => ?_, fun _ => hf.onRet hret, hf.onOut⟩
    simp [hret] at h
  | false =>
    have h2 := hg f.state (hf.onGo hret)
    refine ⟨fun h => h2.onGo (by simpa using h), fun h => h2.onRet (by simpa using h), ?_⟩
    intro a ha
    rcases List.mem_append.mp (by simpa using ha) with h | h
    · exact hf.onOut a h
    · exact h2.onOut a h

lemma Ensures.mono (hf : f.Ensures G R O) (hG : ∀ s, G s → G' s) (hR : ∀ s, R s → R' s)
    (hO : ∀ a, O a → O' a) : f.Ensures G' R' O' :=
  ⟨fun h => hG _ (hf.onGo h), fun h => hR _ (hf.onRet h), fun a ha => hO a (hf.onOut a ha)⟩

/-- A second postcondition may add to both states. -/
lemma Ensures.and (hf : f.Ensures G R O) (hf' : f.Ensures G' R' O') :
    f.Ensures (fun s => G s ∧ G' s) (fun s => R s ∧ R' s) O :=
  ⟨fun h => ⟨hf.onGo h, hf'.onGo h⟩, fun h => ⟨hf.onRet h, hf'.onRet h⟩, hf.onOut⟩

/-- A second postcondition may add to what is handed on. -/
lemma Ensures.andGo (hf : f.Ensures G R O) (hf' : f.Ensures G' R' O') :
    f.Ensures (fun s => G s ∧ G' s) R O :=
  ⟨fun h => ⟨hf.onGo h, hf'.onGo h⟩, hf.onRet, hf.onOut⟩

/-- What holds of the state on both ways out holds of the state left behind. -/
lemma Ensures.state (hf : f.Ensures G G O) : G f.state := by
  cases hret : f.returned with
  | true => exact hf.onRet hret
  | false => exact hf.onGo hret

/-- A phase that is never returned from. -/
lemma Ensures.not_returned (hf : f.Ensures G (fun _ => False) O) : f.returned = false := by
  cases hret : f.returned with
  | true => exact (hf.onRet hret).elim
  | false => rfl

lemma Ensures.mem_out (hf : f.Ensures G R O) {a : ω} (ha : a ∈ f.out) : O a := hf.onOut a ha

end Outcome
