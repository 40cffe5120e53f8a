import Mathlib.Tactic.Common

/-!
# Support — Run

A system is a partial step function `step : σ → ε → Option σ`: `step s e` is the state after the
event `e`, and `none` where `e` cannot be taken in `s`.  A run is a list of events taken in order
(`run`).  Interleavings are lists of events of different parties, so a statement about every
interleaving is a statement about every list.

Two predicates follow a run state by state.  `Always P` says that every state the run passes
through satisfies `P`; `Meets C` says that every event is taken in a state where `C` allows it.
`Meets` is how a condition on steps is put on a whole run.

Invariants are carried by one rule (`run_invariant`), in the relative form: a step kept within
`C` preserves `I`, so a run kept within `C` does (`always_of_invariant`).  In the other direction,
when a step outside `C` leaves `P` at once, a run that is always in `P` is kept within `C`
(`meets_of_always`).

A part of a larger system runs whenever the system does (`run_projects`), so what holds in every
run of the part holds of it in the system.  `Reaches E` is what some run with events of `E` alone
can do, and a part can do it in the system, too (`Reaches.lift`).
-/

namespace Sys

variable {σ ε : Type*} {step : σ → ε → Option σ} {s s' s'' : σ} {e : ε} {es es' : List ε}

/-- The state after the events `es`, taken in order. -/
def run (step : σ → ε → Option σ) : σ → List ε → Option σ
  | s, [] => some s
  | s, e :: es => (step s e).bind fun s' => run step s' es

/-- Every event of `es` is taken in a state where `C` allows it. -/
def Meets (step : σ → ε → Option σ) (C : σ → ε → Prop) : σ → List ε → Prop
  | _, [] => True
  | s, e :: es => C s e ∧ ∀ s', step s e = some s' → Meets step C s' es

/-- `P` holds in every state the run passes through, both ends included. -/
def Always (step : σ → ε → Option σ) (P : σ → Prop) : σ → List ε → Prop
  | s, [] => P s
  | s, e :: es => P s ∧ ∀ s', step s e = some s' → Always step P s' es

/-! ### Taking runs apart -/

@[simp] theorem run_nil : run step s [] = some s := rfl

@[simp] theorem run_cons :
    run step s (e :: es) = some s' ↔ ∃ s₁, step s e = some s₁ ∧ run step s₁ es = some s' := by
  simp only [run, Option.bind_eq_some_iff]

theorem run_append : run step s (es ++ es') = some s'' ↔
    ∃ s', run step s es = some s' ∧ run step s' es' = some s'' := by
  induction es generalizing s with
  | nil => simp [run]
  | cons e es ih =>
      simp only [List.cons_append, run_cons, ih]
      constructor
      · rintro ⟨s₁, hs, s', hr, hr'⟩
        exact ⟨s', ⟨s₁, hs, hr⟩, hr'⟩
      · rintro ⟨s', ⟨s₁, hs, hr⟩, hr'⟩
        exact ⟨s₁, hs, s', hr, hr'⟩

/-- Every run meets the condition that allows every step. -/
theorem meets_true : Meets step (fun _ _ => True) s es := by
  induction es generalizing s with
  | nil => trivial
  | cons e es ih => exact ⟨trivial, fun _ _ => ih⟩

/-- A condition on events alone. -/
theorem meets_of_forall {C : ε → Prop} (h : ∀ e ∈ es, C e) : Meets step (fun _ e => C e) s es := by
  induction es generalizing s with
  | nil => trivial
  | cons e es ih =>
      exact ⟨h e List.mem_cons_self, fun _ _ => ih fun e' he' => h e' (List.mem_cons_of_mem e he')⟩

theorem Meets.of_step {C : σ → ε → Prop} (hC : C s e) (hs : step s e = some s')
    (h : Meets step C s' es) : Meets step C s (e :: es) := by
  refine ⟨hC, ?_⟩
  intro s'' hs'
  cases hs.symm.trans hs'
  exact h

theorem Meets.of_append {C : σ → ε → Prop} (h : Meets step C s (es ++ es')) :
    Meets step C s es := by
  induction es generalizing s with
  | nil => trivial
  | cons e es ih => exact ⟨h.1, fun s' hs => ih (h.2 s' hs)⟩

/-- A condition can be weakened for the steps a completed run takes. -/
theorem Meets.mono_run {C D : σ → ε → Prop} (hCD : ∀ s e s', step s e = some s' → C s e → D s e)
    (hC : Meets step C s es) (hr : run step s es = some s') : Meets step D s es := by
  induction es generalizing s with
  | nil => trivial
  | cons e es ih =>
      obtain ⟨s₁, hs, hr⟩ := run_cons.mp hr
      refine ⟨hCD s e s₁ hs hC.1, ?_⟩
      intro s₂ hs₂
      cases hs.symm.trans hs₂
      exact ih (hC.2 s₁ hs) hr

theorem Always.head {P : σ → Prop} (h : Always step P s es) : P s := by
  cases es with
  | nil => exact h
  | cons e es => exact h.1

/-! ### Two systems -/

/-- **The simulation rule**: what follows every step of a run follows the run. -/
theorem run_simulates {τ : Type*} {step' : τ → ε → Option τ} {R : σ → τ → Prop} {t : τ}
    (hstep : ∀ s e s' t, R s t → step s e = some s' → ∃ t', step' t e = some t' ∧ R s' t')
    (hR : R s t) (hr : run step s es = some s') : ∃ t', run step' t es = some t' ∧ R s' t' := by
  induction es generalizing s t with
  | nil =>
      cases hr
      exact ⟨t, rfl, hR⟩
  | cons e es ih =>
      obtain ⟨s₁, hs, hr⟩ := run_cons.mp hr
      obtain ⟨t₁, ht, hR₁⟩ := hstep s e s₁ t hR hs
      obtain ⟨t', hr', hR'⟩ := ih hR₁ hr
      exact ⟨t', run_cons.mpr ⟨t₁, ht, hr'⟩, hR'⟩

/-! ### What can be reached -/

/-- Some run with events of `E` alone ends in `s'`. -/
def Reaches (step : σ → ε → Option σ) (E : ε → Prop) (s s' : σ) : Prop :=
  ∃ es, (∀ e ∈ es, E e) ∧ run step s es = some s'

section Reaches

variable {E : ε → Prop}

theorem Reaches.refl (s : σ) : Reaches step E s s :=
  ⟨[], fun _ h => absurd h List.not_mem_nil, rfl⟩

theorem Reaches.single (he : E e) (hs : step s e = some s') : Reaches step E s s' := by
  refine ⟨[e], ?_, run_cons.mpr ⟨s', hs, rfl⟩⟩
  intro e' he'
  exact List.mem_singleton.mp he' ▸ he

theorem Reaches.trans (h : Reaches step E s s') (h' : Reaches step E s' s'') :
    Reaches step E s s'' := by
  obtain ⟨es, hes, hr⟩ := h
  obtain ⟨es', hes', hr'⟩ := h'
  refine ⟨es ++ es', ?_, run_append.mpr ⟨s', hr, hr'⟩⟩
  intro e he
  exact (List.mem_append.mp he).elim (hes e) (hes' e)

theorem Reaches.of_run (hes : ∀ e ∈ es, E e) (hr : run step s es = some s') :
    Reaches step E s s' :=
  ⟨es, hes, hr⟩

/-- What is reached from where a run has come is where a run can come. -/
theorem Reaches.exists_run {s₀ : σ} (h : Reaches step E s s') (hr : run step s₀ es = some s) :
    ∃ es', run step s₀ es' = some s' := by
  obtain ⟨es', -, hr'⟩ := h
  exact ⟨es ++ es', run_append.mpr ⟨s, hr, hr'⟩⟩

/-- What a part can do, the system can do, step by step. -/
theorem Reaches.lift {τ ε' : Type*} {step' : τ → ε' → Option τ} {E' : ε' → Prop}
    {R : σ → τ → Prop} {t t' : τ}
    (hstep : ∀ s t e t', R s t → E' e → step' t e = some t' →
      ∃ s', Reaches step E s s' ∧ R s' t')
    (h : Reaches step' E' t t') (hR : R s t) : ∃ s', Reaches step E s s' ∧ R s' t' := by
  obtain ⟨es, hes, hr⟩ := h
  induction es generalizing s t with
  | nil =>
      cases hr
      exact ⟨s, .refl s, hR⟩
  | cons e es ih =>
      obtain ⟨t₁, ht, hr⟩ := run_cons.mp hr
      obtain ⟨s₁, hs, hR₁⟩ := hstep s t e t₁ hR (hes e List.mem_cons_self) ht
      obtain ⟨s', hs', hR'⟩ := ih hR₁ (fun e he => hes e (List.mem_cons_of_mem _ he)) hr
      exact ⟨s', hs.trans hs', hR'⟩

/-- **The projection rule**: what a system does to a part of it is a run of the part. -/
theorem run_projects {τ ε' : Type*} {step' : τ → ε' → Option τ} {E' : ε' → Prop} {f : σ → τ}
    (hstep : ∀ s e s', step s e = some s' → Reaches step' E' (f s) (f s'))
    (hr : run step s es = some s') : Reaches step' E' (f s) (f s') := by
  induction es generalizing s with
  | nil =>
      cases hr
      exact .refl _
  | cons e es ih =>
      obtain ⟨s₁, hs, hr⟩ := run_cons.mp hr
      exact (hstep s e s₁ hs).trans (ih hr)

end Reaches

/-! ### Invariants -/

/-- **The invariant rule**, within a condition on steps. -/
theorem run_invariant {I : σ → Prop} {C : σ → ε → Prop}
    (hstep : ∀ s e s', I s → C s e → step s e = some s' → I s') (hC : Meets step C s es)
    (hI : I s) (hr : run step s es = some s') : I s' := by
  induction es generalizing s with
  | nil => cases hr; exact hI
  | cons e es ih =>
      obtain ⟨s₁, hs, hr⟩ := run_cons.mp hr
      exact ih (hC.2 s₁ hs) (hstep s e s₁ hI hC.1 hs) hr

/-- The invariant rule for steps under no condition. -/
theorem run_invariant' {I : σ → Prop} (hstep : ∀ s e s', I s → step s e = some s' → I s')
    (hI : I s) (hr : run step s es = some s') : I s' :=
  run_invariant (C := fun _ _ => True) (fun s e s' h _ => hstep s e s' h) meets_true hI hr

/-- The invariant rule for what depends on the events so far. -/
theorem run_history {I : List ε → σ → Prop}
    (hstep : ∀ es s e s', I es s → step s e = some s' → I (es ++ [e]) s') (hI : I [] s)
    (hr : run step s es = some s') : I es s' := by
  have h : ∀ es done s, I done s → run step s es = some s' → I (done ++ es) s' := by
    intro es
    induction es with
    | nil =>
        intro done s hI hr
        cases hr
        rwa [List.append_nil]
    | cons e es ih =>
        intro done s hI hr
        obtain ⟨s₁, hs, hr⟩ := run_cons.mp hr
        have hrest := ih (done ++ [e]) s₁ (hstep done s e s₁ hI hs) hr
        rwa [List.append_assoc] at hrest
  exact h es [] s hI hr

/-- The invariant rule for events of `E`. -/
theorem Reaches.invariant {E : ε → Prop} {I : σ → Prop}
    (hstep : ∀ s e s', I s → E e → step s e = some s' → I s') (h : Reaches step E s s')
    (hI : I s) : I s' := by
  obtain ⟨es, hes, hr⟩ := h
  exact run_invariant hstep (meets_of_forall hes) hI hr

/-- An invariant that gives `P` gives it in every state of a run kept within `C`. -/
theorem always_of_invariant {I P : σ → Prop} {C : σ → ε → Prop} (hIP : ∀ s, I s → P s)
    (hstep : ∀ s e s', I s → C s e → step s e = some s' → I s') (hC : Meets step C s es)
    (hI : I s) : Always step P s es := by
  induction es generalizing s with
  | nil => exact hIP s hI
  | cons e es ih =>
      exact ⟨hIP s hI, fun s₁ hs => ih (hC.2 s₁ hs) (hstep s e s₁ hI hC.1 hs)⟩

/-- An invariant kept within `C` gives `D` at every step taken within `C`. -/
theorem meets_of_invariant {I : σ → Prop} {C D : σ → ε → Prop} (hID : ∀ s e, I s → C s e → D s e)
    (hstep : ∀ s e s', I s → C s e → step s e = some s' → I s') (hC : Meets step C s es)
    (hI : I s) : Meets step D s es := by
  induction es generalizing s with
  | nil => trivial
  | cons e es ih =>
      exact ⟨hID s e hI hC.1, fun s₁ hs => ih (hC.2 s₁ hs) (hstep s e s₁ hI hC.1 hs)⟩

/-- When a step outside `C` ends outside `P`, a run that is always in `P` is kept within `C`. -/
theorem meets_of_always {P : σ → Prop} {C : σ → ε → Prop}
    (hstep : ∀ s e s', P s → step s e = some s' → P s' → C s e) (hP : Always step P s es)
    (hr : run step s es = some s') : Meets step C s es := by
  induction es generalizing s with
  | nil => trivial
  | cons e es ih =>
      obtain ⟨s₁, hs, hr⟩ := run_cons.mp hr
      refine ⟨hstep s e s₁ hP.1 hs (hP.2 s₁ hs).head, ?_⟩
      intro s₂ hs₂
      cases hs.symm.trans hs₂
      exact ih (hP.2 s₁ hs) hr

/-- What a step keeps exactly within `C`, a run keeps exactly within `C`. -/
theorem iff_meets {I P : σ → Prop} {C : σ → ε → Prop}
    (hI : ∀ s e s', I s → step s e = some s' → I s')
    (hstep : ∀ s e s', I s → step s e = some s' → (P s' ↔ P s ∧ C s e)) (h : I s)
    (hr : run step s es = some s') : P s' ↔ P s ∧ Meets step C s es := by
  induction es generalizing s with
  | nil =>
      cases hr
      exact ⟨fun hP => ⟨hP, trivial⟩, And.left⟩
  | cons e es ih =>
      obtain ⟨s₁, hs, hr⟩ := run_cons.mp hr
      rw [ih (hI s e s₁ h hs) hr, hstep s e s₁ h hs, and_assoc]
      refine and_congr_right fun _ => and_congr_right fun _ => ⟨?_, fun hM => hM s₁ hs⟩
      intro hM s₂ hs₂
      cases hs.symm.trans hs₂
      exact hM

end Sys
