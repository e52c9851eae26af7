import Mathlib.Data.List.Induction

/-!
Runs of a system that moves by a step function.

* `run`: the state reached from `s` over a list of events;
* `Guarded`: a run all of whose steps meet a condition on the state they find
  and the event they take;
* `run_invariant` and `guarded_invariant`: what one step preserves, a whole run
  preserves;
* `guarded_congr`, `guarded_iff_holds`: what guards the same runs;
* `guarded_step`: in a guarded run the event at hand meets the condition in the
  state the earlier events lead to;
* `run_filter`: events that change nothing when they are taken may be left out;
* `trace`: what a system that also emits outputs emits over a list of events;
  `trace_invariant`: the invariant rule for a property of the state and of the outputs so far.
-/

namespace Steps

open List

variable {σ α : Type*} {s : σ} {es : List α}

/-- The state reached from `s` over the events `es`. -/
def run (step : σ → α → σ) (s : σ) (es : List α) : σ := es.foldl step s

/-- Every event of the run meets `ok` in the state in which it is taken. -/
def Guarded (step : σ → α → σ) (ok : σ → α → Prop) : σ → List α → Prop
  | _, [] => True
  | s, e :: es => ok s e ∧ Guarded step ok (step s e) es

variable {step : σ → α → σ} {ok : σ → α → Prop}

instance decidableGuarded [∀ s e, Decidable (ok s e)] :
    ∀ (s : σ) (es : List α), Decidable (Guarded step ok s es)
  | _, [] => isTrue trivial
  | s, e :: es =>
    have := decidableGuarded (step s e) es
    inferInstanceAs (Decidable (ok s e ∧ Guarded step ok (step s e) es))

@[simp] lemma run_nil : run step s [] = s := rfl

@[simp] lemma run_cons {e : α} : run step s (e :: es) = run step (step s e) es := rfl

lemma run_append {fs : List α} : run step s (es ++ fs) = run step (run step s es) fs := by
  rw [run, foldl_append]
  rfl

lemma run_concat (s : σ) (es : List α) (e : α) :
    run step s (es ++ [e]) = step (run step s es) e := by
  rw [run_append, run_cons, run_nil]

@[simp] lemma guarded_nil : Guarded step ok s [] := trivial

@[simp] lemma guarded_cons {e : α} :
    Guarded step ok s (e :: es) ↔ ok s e ∧ Guarded step ok (step s e) es := Iff.rfl

lemma guarded_append {fs : List α} :
    Guarded step ok s (es ++ fs)
      ↔ Guarded step ok s es ∧ Guarded step ok (run step s es) fs := by
  induction es generalizing s with
  | nil => simp
  | cons e es ih => simp [ih, and_assoc]

/-- A run of events that meet the condition in every state is guarded. -/
lemma guarded_of_forall_mem (h : ∀ e ∈ es, ∀ s, ok s e) (s : σ) : Guarded step ok s es := by
  induction es generalizing s with
  | nil => trivial
  | cons e es ih =>
    exact ⟨h e mem_cons_self s, ih (fun e' he' => h e' (mem_cons_of_mem e he')) _⟩

/-- A run that meets two conditions meets both together. -/
lemma Guarded.and {ok' : σ → α → Prop} (h : Guarded step ok s es) (h' : Guarded step ok' s es) :
    Guarded step (fun s e => ok s e ∧ ok' s e) s es := by
  induction es generalizing s with
  | nil => trivial
  | cons e es ih => exact ⟨⟨h.1, h'.1⟩, ih h.2 h'.2⟩

/-- The event after a guarded run meets the condition in the state reached. -/
lemma guarded_step {e : α} (h : Guarded step ok s (es ++ [e])) :
    Guarded step ok s es ∧ ok (run step s es) e := by
  rw [guarded_append] at h
  exact ⟨h.1, h.2.1⟩

/-- **The invariant rule for guarded runs**: a property that every step meeting
the condition preserves holds after every guarded run. -/
theorem guarded_invariant {I : σ → Prop} (hstep : ∀ s e, I s → ok s e → I (step s e)) {s : σ}
    (hs : I s) {es : List α} (h : Guarded step ok s es) : I (run step s es) := by
  induction es generalizing s with
  | nil => exact hs
  | cons e es ih => exact ih (hstep s e hs h.1) h.2

/-- **The invariant rule**: a property that every step preserves holds after
every run. -/
theorem run_invariant {I : σ → Prop} (hstep : ∀ s e, I s → I (step s e)) {s : σ} (hs : I s)
    (es : List α) : I (run step s es) :=
  have hfree : Guarded step (fun _ _ => True) s es :=
    guarded_of_forall_mem (fun _ _ _ => trivial) s
  guarded_invariant (fun s e hI _ => hstep s e hI) hs hfree

/-- The invariant rule with a history: a property of the state and of the events
taken so far. -/
theorem history_invariant {I : List α → σ → Prop} {s : σ}
    (hstep : ∀ es e, Guarded step ok s (es ++ [e]) → I es (run step s es) →
      I (es ++ [e]) (step (run step s es) e))
    (hs : I [] s) {es : List α} (h : Guarded step ok s es) : I es (run step s es) := by
  induction es using reverseRecOn with
  | nil => exact hs
  | append_singleton es e ih =>
    rw [run_concat]
    exact hstep es e h (ih (guarded_step h).1)

/-- Conditions that agree where an invariant holds guard the same runs, if the invariant is kept. -/
theorem guarded_congr {ok' : σ → α → Prop} {I : σ → Prop}
    (hiff : ∀ s e, I s → (ok s e ↔ ok' s e)) (hstep : ∀ s e, I s → ok s e → I (step s e)) {s : σ}
    (hs : I s) {es : List α} : Guarded step ok s es ↔ Guarded step ok' s es := by
  induction es generalizing s with
  | nil => exact Iff.rfl
  | cons e es ih =>
    rw [guarded_cons, guarded_cons, ← hiff s e hs]
    exact and_congr_right fun he => ih (hstep s e hs he)

/-- A run is guarded by what keeps a property iff the property holds at every point of it. -/
theorem guarded_iff_holds {P : σ → Prop} {s : σ} (hs : P s)
    (hok : ∀ es e, P (run step s es) → (ok (run step s es) e ↔ P (run step s (es ++ [e]))))
    {es : List α} :
    (∀ es', es' <+: es → P (run step s es')) ↔ Guarded step ok s es := by
  induction es using reverseRecOn with
  | nil =>
    refine iff_of_true (fun es' hes' => ?_) trivial
    rwa [prefix_nil.mp hes']
  | append_singleton es e ih =>
    rw [guarded_append, ← ih]
    constructor
    · intro h
      have hbefore : ∀ es', es' <+: es → P (run step s es') :=
        fun es' hes' => h es' (hes'.trans (prefix_append es [e]))
      exact ⟨hbefore, (hok es e (hbefore es prefix_rfl)).mpr (h _ prefix_rfl), trivial⟩
    · rintro ⟨h, hlast, -⟩ es' hes'
      rcases prefix_concat_iff.mp hes' with rfl | hes'
      · exact (hok es e (h es prefix_rfl)).mp hlast
      · exact h es' hes'

/-- **Idle events may be left out**: a guarded run reaches the same state without the events
that change nothing where they are taken. -/
theorem run_filter {skip : α → Bool} (hidle : ∀ s e, ok s e → skip e = true → step s e = s)
    {s : σ} {es : List α} (h : Guarded step ok s es) :
    run step s (es.filter fun e => !skip e) = run step s es := by
  induction es generalizing s with
  | nil => rfl
  | cons e es ih =>
    cases hskip : skip e with
    | true =>
      rw [filter_cons_of_neg (by simp [hskip]), run_cons, hidle s e h.1 hskip]
      exact ih (hidle s e h.1 hskip ▸ h.2)
    | false =>
      rw [filter_cons_of_pos (by simp [hskip]), run_cons, run_cons]
      exact ih h.2

/-! ### Outputs -/

section Trace

variable {ω : Type*} {handle : σ → α → σ × List ω}

/-- The outputs over the events `es`, in order. -/
def trace (handle : σ → α → σ × List ω) : σ → List α → List ω
  | _, [] => []
  | s, e :: es => (handle s e).2 ++ trace handle (handle s e).1 es

@[simp] lemma trace_nil (s : σ) : trace handle s [] = [] := rfl

@[simp] lemma trace_cons (s : σ) (e : α) (es : List α) :
    trace handle s (e :: es) = (handle s e).2 ++ trace handle (handle s e).1 es := rfl

lemma trace_append {s : σ} {es fs : List α} :
    trace handle s (es ++ fs)
      = trace handle s es ++ trace handle (run (fun s e => (handle s e).1) s es) fs := by
  induction es generalizing s with
  | nil => rfl
  | cons e es ih => rw [cons_append, trace_cons, trace_cons, ih, append_assoc, run_cons]

/-- The invariant rule with outputs: a property of the state and of the outputs so far. -/
theorem trace_invariant {I : List ω → σ → Prop}
    (hstep : ∀ out s e, I out s → ok s e → I (out ++ (handle s e).2) (handle s e).1)
    {out : List ω} {s : σ} (hs : I out s) {es : List α}
    (h : Guarded (fun s e => (handle s e).1) ok s es) :
    I (out ++ trace handle s es) (run (fun s e => (handle s e).1) s es) := by
  induction es generalizing out s with
  | nil =>
    rw [trace_nil, append_nil]
    exact hs
  | cons e es ih =>
    rw [trace_cons, ← append_assoc]
    exact ih (hstep out s e hs h.1) h.2

end Trace

end Steps
