import MediumClone.Support.Transaction

/-!
# Support — Refinement

A server answers calls: `serve s e` is its answer to `e` in the state `s`, with the state after.  A
specification is a relation `Step t e a t'` on states of its own: in `t` the call `e` may be
answered `a`, and leave `t'`.

The server refines the specification when an abstraction of its states carries each of its answers
to a step of the specification (`Refines`).  Then it does so for every history of calls
(`Refines.explains`), and what the specification keeps is kept by the server.  Calls that are
transactions may run at once: under the discipline of their locks, what they answer is such a
history (`Transaction.explains_outcomes`).
-/

namespace Sys

variable {σ τ ε α : Type*} {Step : τ → ε → α → τ → Prop} {serve : σ → ε → α × σ} {abs : σ → τ}
  {t t' t'' : τ} {h h' : List (ε × α)} {s : σ} {es : List ε}

/-- The calls `es` one after another: each with its answer, and the state at the end. -/
def serveAll (serve : σ → ε → α × σ) : σ → List ε → List (ε × α) × σ
  | s, [] => ([], s)
  | s, e :: es =>
    let (a, s') := serve s e
    let (history, s'') := serveAll serve s' es
    ((e, a) :: history, s'')

/-- The history of calls with their answers is one of the specification. -/
inductive Explains (Step : τ → ε → α → τ → Prop) : τ → List (ε × α) → τ → Prop where
  | nil {t : τ} : Explains Step t [] t
  | cons {t t' t'' : τ} {e : ε} {a : α} {h : List (ε × α)} (hs : Step t e a t')
      (hh : Explains Step t' h t'') : Explains Step t ((e, a) :: h) t''

/-- Seen through `abs`, each answer of the server is a step of the specification. -/
def Refines (Step : τ → ε → α → τ → Prop) (serve : σ → ε → α × σ) (abs : σ → τ) : Prop :=
  ∀ s e, Step (abs s) e (serve s e).1 (abs (serve s e).2)

/-- The history has an answer to each of the calls, in their order. -/
theorem map_fst_serveAll : (serveAll serve s es).1.map Prod.fst = es := by
  induction es generalizing s with
  | nil => rfl
  | cons e es ih => exact congrArg (e :: ·) ih

theorem Refines.explains (hr : Refines Step serve abs) :
    Explains Step (abs s) (serveAll serve s es).1 (abs (serveAll serve s es).2) := by
  induction es generalizing s with
  | nil => exact .nil
  | cons e es ih => exact .cons (hr s e) ih

theorem Explains.append (hh : Explains Step t h t') (hh' : Explains Step t' h' t'') :
    Explains Step t (h ++ h') t'' := by
  induction hh with
  | nil => exact hh'
  | cons hs _ ih => exact .cons hs (ih hh')

theorem Explains.snoc {e : ε} {a : α} (hh : Explains Step t h t') (hs : Step t' e a t'') :
    Explains Step t (h ++ [(e, a)]) t'' :=
  hh.append (.cons hs .nil)

/-- The invariant rule of a specification. -/
theorem Explains.invariant {I : τ → Prop} (hstep : ∀ t e a t', I t → Step t e a t' → I t')
    (hI : I t) (hh : Explains Step t h t') : I t' := by
  induction hh with
  | nil => exact hI
  | cons hs _ ih => exact ih (hstep _ _ _ _ hI hs)

/-- What relates the states of each step of a history relates its ends. -/
theorem Explains.relates {R : τ → τ → Prop} (hrefl : ∀ t, R t t)
    (htrans : ∀ {t t' t''}, R t t' → R t' t'' → R t t'') (hh : Explains Step t h t')
    (hstep : ∀ t e a t', (e, a) ∈ h → Step t e a t' → R t t') : R t t' := by
  induction hh with
  | nil => exact hrefl _
  | cons hs _ ih =>
      exact htrans (hstep _ _ _ _ List.mem_cons_self hs)
        (ih fun t e a t' hmem => hstep t e a t' (List.mem_cons_of_mem _ hmem))

/-- What each step sets or leaves is in the end as it was last set. -/
theorem Explains.last {β : Type*} (look : τ → β) {set : ε × α → Option β}
    (hstep : ∀ t e a t', Step t e a t' → look t' = (set (e, a)).getD (look t))
    (hh : Explains Step t h t') : look t' = ((h.filterMap set).getLast?).getD (look t) := by
  induction hh with
  | nil => rfl
  | @cons t t' t'' e a h hs hh ih =>
      rw [ih, hstep _ _ _ _ hs]
      cases hset : set (e, a) with
      | none => rw [List.filterMap_cons_none hset, Option.getD_none]
      | some b =>
          rw [List.filterMap_cons_some hset, List.getLast?_cons, Option.getD_some]
          cases (h.filterMap set).getLast? <;> rfl

/-! ### Transactions -/

namespace Transaction

section

variable {ι κ δ ρ ε α : Type}

/-- The call that a step ends, with its start and what it answers; not where the database fails. -/
def outcome (s : State ι κ δ ρ ε α) : Event ι κ → Option ((ι × κ) × Except ε α)
  | .exec i =>
    match s.session i with
    | .running t _ (.ret a) => some ((i, t), .ok a)
    | .running t _ (.throw e) => some ((i, t), .error e)
    | _ => none
  | _ => none

variable [DecidableEq ι] [DecidableEq ρ] [LE κ] [DecidableLE κ]

/-- What the calls of a run answer, in the order in which they end. -/
def outcomes (prog : ι → κ → Tx δ ρ ε α) :
    State ι κ δ ρ ε α → List (Event ι κ) → List ((ι × κ) × Except ε α)
  | _, [] => []
  | s, e :: es => (outcome s e).toList ++ (step prog s e).elim [] fun s' => outcomes prog s' es

variable {prog : ι → κ → Tx δ ρ ε α} {s s' : State ι κ δ ρ ε α} {e : Event ι κ}

/-- A step ends no call, or one that returns and commits, or one that throws. -/
theorem outcome_cases (h : step prog s e = some s') :
    (outcome s e = none ∧ s'.db = s.db) ∨
    (∃ i t pend a, s.session i = .running t pend (.ret a) ∧ outcome s e = some ((i, t), .ok a) ∧
      s'.db = pend s.db) ∨
    ∃ i t pend r, s.session i = .running t pend (.throw r) ∧
      outcome s e = some ((i, t), .error r) ∧ s'.db = s.db := by
  cases e with
  | start i t =>
      refine .inl ⟨rfl, ?_⟩
      simp only [step] at h
      split at h
      · split at h
        · cases h
          rfl
        · cases h
      · cases h
  | exec i =>
      simp only [step] at h
      split at h
      · rename_i t pend lock write k hi
        obtain ⟨s₁, hs₁, rfl⟩ := Option.map_eq_some_iff.mp h
        exact .inl ⟨by rw [outcome, hi], (State.lock_eq hs₁).1⟩
      · rename_i t pend a hi
        cases h
        exact .inr (.inl ⟨i, t, pend, a, hi, by rw [outcome, hi], rfl⟩)
      · rename_i t pend r hi
        cases h
        exact .inr (.inr ⟨i, t, pend, r, hi, by rw [outcome, hi], rfl⟩)
      · cases h
  | fails i =>
      refine .inl ⟨rfl, ?_⟩
      simp only [step] at h
      split at h
      · cases h
        rfl
      · cases h

end

section

variable {ι κ δ ρ ε α : Type} [DecidableEq ι] [DecidableEq ρ] [Preorder κ] [DecidableLE κ]
  {ε' τ : Type*} {Same : Set ρ → δ → δ → Prop} {Rely : ι → δ → Prop}
  {prog : ι → κ → Tx δ ρ ε α} {d₀ : δ} {t₀ : κ} {s s' : State ι κ δ ρ ε α}
  {es : List (Event ι κ)} {Step : τ → ε' → Except ε α → τ → Prop} {abs : δ → τ}
  {call : ι → κ → ε'}

/-- **Concurrent transactions answer as the specification.**  Under the discipline of the locks,
what the calls of a run answer, refusals included, is a history of the specification, if each call
alone is one step of it. -/
theorem explains_outcomes (P : Protects Same) (K : KeepsRely Rely prog)
    (W : ∀ i t b, WellLockedIn (Rely i) Same (prog i t) ∅ id b) (h₀ : ∀ i, Rely i d₀)
    (hok : ∀ i t a d d', (prog i t).exec d = .ok (a, d') →
      Step (abs d) (call i t) (.ok a) (abs d'))
    (herror : ∀ i t r d, (prog i t).exec d = .error r → Step (abs d) (call i t) (.error r) (abs d))
    (hr : run (step prog) (State.init d₀ t₀) es = some s) :
    Explains Step (abs d₀)
      ((outcomes prog (State.init d₀ t₀) es).map fun x => (call x.1.1 x.1.2, x.2)) (abs s.db) := by
  have hfrom : ∀ es s₁, InvIn Rely Same prog d₀ s₁ → run (step prog) s₁ es = some s →
      Explains Step (abs s₁.db) ((outcomes prog s₁ es).map fun x => (call x.1.1 x.1.2, x.2))
        (abs s.db) := by
    intro es
    induction es with
    | nil =>
        intro s₁ _ hr
        cases hr
        exact .nil
    | cons e es ih =>
        intro s₁ h₁ hr
        obtain ⟨s₂, hs, hr⟩ := run_cons.mp hr
        have hrest := ih s₂ (h₁.step P K W hs) hr
        rw [outcomes, hs, Option.elim_some, List.map_append]
        obtain ⟨hnone, hdb⟩ | ⟨i, t, pend, a, hi, hsome, hdb⟩ | ⟨i, t, pend, r, hi, hsome, hdb⟩ :=
          outcome_cases hs
        · rw [hnone, ← hdb]
          exact hrest
        · rw [hdb] at hrest
          rw [hsome]
          exact .cons (hok i t a _ _ (h₁.exec_ret P hi)) hrest
        · rw [hdb] at hrest
          rw [hsome]
          exact .cons (herror i t r _ ((h₁.serialized P).refused i t pend r hi)) hrest
  exact hfrom es _ (InvIn.init h₀) hr

end

end Transaction

end Sys
