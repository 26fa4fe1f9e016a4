/-
  CovProcess.Lib.Runs — runs of a system given by a partial step function: from a state
  an event leads to the next state, or is not enabled.

  Rules: an invariant kept by one step is kept by a run (`exec_invariant`), an invariant
  may speak of the events so far (`exec_history`), and a measure that every event of a
  kind lowers bounds their number (`exec_measure`). Where a step needs a condition, a run
  of steps that all meet it keeps what one such step keeps (`exec_meets`), and where the
  condition is exact for a step it is for a run (`exec_meets_iff`, `meets_iff_prefixes`).
-/

import Mathlib.Data.List.Basic

namespace Runs

variable {σ ε : Type*} (step : σ → ε → Option σ)

def exec (s : σ) : List ε → Option σ
  | [] => some s
  | e :: es => (step s e).bind fun s' => exec s' es

variable {step}

theorem exec_cons {s s'' : σ} {e : ε} {es : List ε} :
    exec step s (e :: es) = some s'' ↔ ∃ s', step s e = some s' ∧ exec step s' es = some s'' := by
  rw [exec, Option.bind_eq_some_iff]

/-- What one step keeps, with the events so far, a run keeps. -/
theorem exec_history {I : List ε → σ → Prop} {s s' : σ} {es : List ε}
    (hstep : ∀ es s e s', I es s → step s e = some s' → I (es ++ [e]) s') (h0 : I [] s)
    (h : exec step s es = some s') : I es s' := by
  have hrun : ∀ (fs : List ε) (es : List ε) (s : σ), I es s → exec step s fs = some s' → I (es ++ fs) s' := by
    intro fs
    induction fs with
    | nil =>
      intro es s hs h
      cases h
      rwa [List.append_nil]
    | cons e fs ih =>
      intro es s hs h
      obtain ⟨t, ht, h⟩ := exec_cons.mp h
      have := ih (es ++ [e]) t (hstep es s e t hs ht) h
      rwa [List.append_assoc] at this
  exact hrun es [] s h0 h

theorem exec_invariant {I : σ → Prop} {s s' : σ} {es : List ε}
    (hstep : ∀ s e s', I s → step s e = some s' → I s') (h0 : I s) (h : exec step s es = some s') : I s' :=
  exec_history (I := fun _ => I) (fun _ s e s' => hstep s e s') h0 h

/-- Events that lower a measure are no more than it was, the others leaving it alone. -/
theorem exec_measure {I : σ → Prop} {μ : σ → Nat} {counts : ε → Bool} {s s' : σ} {es : List ε}
    (hstep : ∀ s e s', I s → step s e = some s' → I s')
    (hdown : ∀ s e s', I s → step s e = some s' → μ s' + (if counts e then 1 else 0) ≤ μ s) (h0 : I s)
    (h : exec step s es = some s') : es.countP counts + μ s' ≤ μ s := by
  induction es generalizing s with
  | nil =>
    cases h
    simp
  | cons e es ih =>
    obtain ⟨t, ht, h⟩ := exec_cons.mp h
    have hrest := ih (hstep s e t h0 ht) h
    have hone := hdown s e t h0 ht
    rw [List.countP_cons]
    omega

variable (step) in
/-- Every step of the run is taken where `P` holds. -/
def Meets (P : σ → ε → Prop) (s : σ) : List ε → Prop
  | [] => True
  | e :: es => P s e ∧ ∀ s', step s e = some s' → Meets P s' es

theorem meets_cons {P : σ → ε → Prop} {s s' : σ} {e : ε} {es : List ε} (h : step s e = some s') :
    Meets step P s (e :: es) ↔ P s e ∧ Meets step P s' es := by
  refine and_congr_right fun _ => ⟨fun hm => hm s' h, ?_⟩
  intro hm t ht
  rw [h] at ht
  cases ht
  exact hm

/-- A property that a step keeps exactly when it meets the condition holds in every state of
    a run exactly when every step of it does. -/
theorem meets_iff_prefixes {I Q : σ → Prop} {P : σ → ε → Prop} {s s' : σ} {es : List ε}
    (hstep : ∀ s e s', I s → step s e = some s' → I s')
    (hiff : ∀ s e s', I s → Q s → step s e = some s' → (Q s' ↔ P s e)) (h0 : I s) (hq : Q s)
    (h : exec step s es = some s') :
    Meets step P s es ↔ ∀ pre post t, es = pre ++ post → exec step s pre = some t → Q t := by
  induction es generalizing s with
  | nil =>
    refine iff_of_true trivial ?_
    intro pre post t hes ht
    obtain ⟨rfl, -⟩ := List.append_eq_nil_iff.mp hes.symm
    cases ht
    exact hq
  | cons e es ih =>
    obtain ⟨u, hu, h⟩ := exec_cons.mp h
    have hone := hiff s e u h0 hq hu
    rw [meets_cons hu]
    constructor
    · intro hm
      obtain ⟨hP, hm⟩ := hm
      intro pre post t hes ht
      cases pre with
      | nil =>
        cases ht
        exact hq
      | cons e' pre =>
        obtain ⟨rfl, hes'⟩ := List.cons.inj hes
        obtain ⟨v, hv, ht⟩ := exec_cons.mp ht
        rw [hu] at hv
        cases hv
        exact (ih (hstep s e u h0 hu) (hone.mpr hP) h).mp hm pre post t hes' ht
    · intro hall
      have hQ : Q u := hall [e] es u rfl (exec_cons.mpr ⟨u, hu, rfl⟩)
      refine ⟨hone.mp hQ, (ih (hstep s e u h0 hu) hQ h).mpr ?_⟩
      intro pre post t hes ht
      exact hall (e :: pre) post t (by rw [hes]; rfl) (exec_cons.mpr ⟨u, hu, ht⟩)

theorem meets_of_forall {P : σ → ε → Prop} {s : σ} {es : List ε} (h : ∀ e ∈ es, ∀ s, P s e) : Meets step P s es := by
  induction es generalizing s with
  | nil => trivial
  | cons e es ih =>
    exact ⟨h e List.mem_cons_self s, fun s' _ => ih fun e he => h e (List.mem_cons_of_mem _ he)⟩

/-- Conditions that agree on the steps of a run. -/
theorem meets_congr {A : ε → Prop} {I : σ → Prop} {P Q : σ → ε → Prop} {s s' : σ} {es : List ε}
    (hstep : ∀ s e s', A e → I s → step s e = some s' → I s')
    (hiff : ∀ s e s', A e → I s → step s e = some s' → (P s e ↔ Q s e)) (h0 : I s) (he : ∀ e ∈ es, A e)
    (h : exec step s es = some s') : Meets step P s es ↔ Meets step Q s es := by
  induction es generalizing s with
  | nil => exact Iff.rfl
  | cons e es ih =>
    obtain ⟨t, ht, h⟩ := exec_cons.mp h
    have hA := he e List.mem_cons_self
    rw [meets_cons ht, meets_cons ht, hiff s e t hA h0 ht,
      ih (hstep s e t hA h0 ht) (fun e he' => he e (List.mem_cons_of_mem _ he')) h]

/-- Conditions that agree where an invariant holds, which the steps that meet them keep. -/
theorem meets_congr_kept {I : σ → Prop} {P Q : σ → ε → Prop} {s : σ} {es : List ε}
    (hiff : ∀ s e, I s → (P s e ↔ Q s e)) (hstep : ∀ s e s', I s → Q s e → step s e = some s' → I s') (h0 : I s) :
    Meets step P s es ↔ Meets step Q s es := by
  induction es generalizing s with
  | nil => exact Iff.rfl
  | cons e es ih =>
    constructor
    · intro h
      have hQ := (hiff s e h0).mp h.1
      exact ⟨hQ, fun t ht => (ih (hstep s e t h0 hQ ht)).mp (h.2 t ht)⟩
    · intro h
      exact ⟨(hiff s e h0).mpr h.1, fun t ht => (ih (hstep s e t h0 h.1 ht)).mpr (h.2 t ht)⟩

theorem meets_and {P Q : σ → ε → Prop} {s : σ} {es : List ε} (hP : Meets step P s es) (hQ : Meets step Q s es) :
    Meets step (fun s e => P s e ∧ Q s e) s es := by
  induction es generalizing s with
  | nil => trivial
  | cons e es ih => exact ⟨⟨hP.1, hQ.1⟩, fun s' hs => ih (hP.2 s' hs) (hQ.2 s' hs)⟩

/-- What steps that meet a condition keep, a run of such steps keeps. -/
theorem exec_meets {I : σ → Prop} {P : σ → ε → Prop} {s s' : σ} {es : List ε}
    (hstep : ∀ s e s', I s → P s e → step s e = some s' → I s') (h0 : I s) (hm : Meets step P s es)
    (h : exec step s es = some s') : I s' := by
  induction es generalizing s with
  | nil =>
    cases h
    exact h0
  | cons e es ih =>
    obtain ⟨t, ht, h⟩ := exec_cons.mp h
    exact ih (hstep s e t h0 hm.1 ht) (hm.2 t ht) h

/-- The same for a property that speaks of the events so far. -/
theorem exec_meets_history {I : List ε → σ → Prop} {P : σ → ε → Prop} {s s' : σ} {es : List ε}
    (hstep : ∀ es s e s', I es s → P s e → step s e = some s' → I (es ++ [e]) s') (h0 : I [] s) (hm : Meets step P s es)
    (h : exec step s es = some s') : I es s' := by
  have hrun : ∀ (fs es : List ε) (s : σ), I es s → Meets step P s fs → exec step s fs = some s' → I (es ++ fs) s' := by
    intro fs
    induction fs with
    | nil =>
      intro es s hs _ h
      cases h
      rwa [List.append_nil]
    | cons e fs ih =>
      intro es s hs hm h
      obtain ⟨t, ht, h⟩ := exec_cons.mp h
      have := ih (es ++ [e]) t (hstep es s e t hs hm.1 ht) (hm.2 t ht) h
      rwa [List.append_assoc] at this
  exact hrun es [] s h0 hm h

/-- A property that one step keeps exactly when it meets the condition holds at the end
    exactly when every step met it, for runs of the events that `A` says. -/
theorem exec_meets_iff_on {A : ε → Prop} {I Q : σ → Prop} {P : σ → ε → Prop} {s s' : σ} {es : List ε}
    (hstep : ∀ s e s', A e → I s → step s e = some s' → I s')
    (hiff : ∀ s e s', A e → I s → step s e = some s' → (Q s' ↔ Q s ∧ P s e)) (h0 : I s) (he : ∀ e ∈ es, A e)
    (h : exec step s es = some s') : I s' ∧ (Q s' ↔ Q s ∧ Meets step P s es) := by
  induction es generalizing s with
  | nil =>
    cases h
    exact ⟨h0, fun hq => ⟨hq, trivial⟩, And.left⟩
  | cons e es ih =>
    obtain ⟨t, ht, h⟩ := exec_cons.mp h
    have hA := he e List.mem_cons_self
    obtain ⟨hI, hQ⟩ := ih (hstep s e t hA h0 ht) (fun e he' => he e (List.mem_cons_of_mem _ he')) h
    refine ⟨hI, ?_⟩
    rw [hQ, hiff s e t hA h0 ht, and_assoc, meets_cons ht]

theorem exec_meets_iff {I Q : σ → Prop} {P : σ → ε → Prop} {s s' : σ} {es : List ε}
    (hstep : ∀ s e s', I s → step s e = some s' → I s')
    (hiff : ∀ s e s', I s → step s e = some s' → (Q s' ↔ Q s ∧ P s e)) (h0 : I s)
    (h : exec step s es = some s') : Q s' ↔ Q s ∧ Meets step P s es :=
  (exec_meets_iff_on (A := fun _ => True) (fun s e s' _ => hstep s e s') (fun s e s' _ => hiff s e s') h0
    (fun _ _ => trivial) h).2

end Runs
