import MediumClone.Outbox.Delivery
import Mathlib.Data.List.Sort
import Mathlib.Data.Set.Finite.Basic

/-!
# Outbox — Pass

Successive passes of one worker, as runs of the relay in which every statement and every add
succeeds except the adds of the rows in `P`.  Time passes between the statements of a pass, and a
pass starts after all leases have expired (`Pass`).

A pass stops at the first row of `P` it has claimed and releases it.  The row is ready at once and
is the oldest again, so the passes get past it only to rows that are older: they dispatch every row
outside `P` exactly when each of these was created before every row of `P` (`drains_iff`).  Rows
created at one time may be claimed in either order, which makes the comparison strict.
-/

namespace MediumClone.Outbox
open Js Sys

/-- The loop over the claimed entries, up to the first whose add fails. -/
inductive Loop {κ π ρ : Type*} (P : κ → Prop) (p : π) :
    List (ClaimedWelcomeMailOutbox κ π) → List (Event κ π ρ) → Prop where
  | nil : Loop P p [] []
  | dispatches {entry rest es} (now : ℤ) (h : ¬ P entry.id) (hrest : Loop P p rest es) :
      Loop P p (entry :: rest) (.sends p :: .stores entry.job :: .addResolves p :: .tick now ::
        .marks p now true :: es)
  | defers {entry rest} (now : ℤ) (h : P entry.id) :
      Loop P p (entry :: rest) [.sends p, .addRejects p, .tick now, .releases p now]

section

variable {κ π ρ : Type*} [DecidableEq κ] [DecidableEq π] {bull : BullMq κ ρ} {P : κ → Prop}
  {p : π} {s s' : State κ π ρ} {entries : List (WelcomeMailOutbox κ π)}

/-- A pass of `relayReady` that claims `entries`. -/
def Pass (bull : BullMq κ ρ) (P : κ → Prop) (entries : List (WelcomeMailOutbox κ π))
    (s s' : State κ π ρ) : Prop :=
  ∃ p now now' es, (∀ r ∈ s.rows, ∀ t ∈ r.leaseExpiresAt, t ≤ now) ∧
    Loop P p (entries.map fun r => r.claimed p) es ∧
    run (step bull) s
      (.tick now :: .poll p now :: .tick now' :: .claims p now' [] entries true :: es) = some s'

/-- `n` passes, one after another. -/
inductive Passes (bull : BullMq κ ρ) (P : κ → Prop) (s : State κ π ρ) :
    ℕ → State κ π ρ → Prop where
  | zero : Passes bull P s 0 s
  | succ {n s₁ s₂ entries} (h : Passes bull P s n s₁) (hpass : Pass bull P entries s₁ s₂) :
      Passes bull P s (n + 1) s₂

/-- After some number of passes every row outside `P` is dispatched. -/
def Drains (bull : BullMq κ ρ) (P : κ → Prop) (s : State κ π ρ) : Prop :=
  ∃ n, ∀ s', Passes bull P s n s' → ∀ r ∈ s'.rows, ¬ P r.id → r.dispatchedAt ≠ none

/-! ### The statements of a pass -/

theorem run_start {now now' : ℤ} {es : List (Event κ π ρ)} :
    run (step bull) s
      (.tick now :: .poll p now :: .tick now' :: .claims p now' [] entries true :: es) = some s' ↔
    s.phase p = .idle ∧ s.clock ≤ now ∧ now ≤ now' ∧
      Selects now' RELAY_BATCH_SIZE [] s.rows entries ∧
      run (step bull) { s with
        clock := now'
        rows := claim p (now + LEASE_DURATION_MS) entries s.rows
        phase := Function.update s.phase p (next (entries.map fun r => r.claimed p)) } es
        = some s' := by
  obtain ⟨clock, rows, queue, sent, phase⟩ := s
  cases hp : phase p with
  | idle => simp [step, hp, State.set, and_assoc]
  | _ => simp [step, hp]

theorem run_dispatches {entry : ClaimedWelcomeMailOutbox κ π}
    {rest : List (ClaimedWelcomeMailOutbox κ π)} {now : ℤ} {es : List (Event κ π ρ)}
    (hp : s.phase p = .adding entry rest) :
    run (step bull) s (.sends p :: .stores entry.job :: .addResolves p :: .tick now ::
      .marks p now true :: es) = some s' ↔
    s.clock ≤ now ∧ run (step bull) { s with
      clock := now
      rows := markDispatched entry.id entry.leaseOwner now s.rows
      queue := bull.addWelcomeMail s.queue entry.job
      sent := s.sent ++ [entry.job]
      phase := Function.update s.phase p (next rest) } es = some s' := by
  obtain ⟨clock, rows, queue, sent, phase⟩ := s
  change phase p = _ at hp
  have hholds : bull.Holds (bull.addWelcomeMail queue entry.job) entry.id :=
    bull.holds_addWelcomeMail queue entry.job
  simp [step, hp, State.set, hholds]

theorem run_defers {entry : ClaimedWelcomeMailOutbox κ π}
    {rest : List (ClaimedWelcomeMailOutbox κ π)} {now : ℤ}
    (hp : s.phase p = .adding entry rest) :
    run (step bull) s [.sends p, .addRejects p, .tick now, .releases p now] = some s' ↔
    s.clock ≤ now ∧ { s with
      clock := now
      rows := release entry.id entry.leaseOwner now s.rows
      sent := s.sent ++ [entry.job]
      phase := Function.update s.phase p .failed } = s' := by
  obtain ⟨clock, rows, queue, sent, phase⟩ := s
  change phase p = _ at hp
  simp [step, hp, State.set]

/-! ### What a pass does to the rows -/

/-- What becomes of a row, from one time to another, while the rows `done` are dispatched. -/
structure Relays (clock clock' : ℤ) (done : List κ) (r r' : WelcomeMailOutbox κ π) : Prop where
  id : r'.id = r.id
  createdAt : r'.createdAt = r.createdAt
  availableAt : r.availableAt ≤ clock → r'.availableAt ≤ clock'
  dispatchedAt : r'.dispatchedAt ≠ none ↔ r.dispatchedAt ≠ none ∨ r.id ∈ done

/-- What becomes of the table while `p` dispatches the rows `done`. -/
structure Effect (p : π) (done : List κ) (s s' : State κ π ρ) : Prop where
  clock : s.clock ≤ s'.clock
  phase : ∀ q, q ≠ p → s'.phase q = s.phase q
  rows : ∃ f, s'.rows = s.rows.map f ∧ ∀ r ∈ s.rows, Relays s.clock s'.clock done r (f r)

omit [DecidableEq κ] [DecidableEq π] in
theorem Relays.refl {clock clock' : ℤ} {done : List κ} {r : WelcomeMailOutbox κ π}
    (hclock : clock ≤ clock') (h : r.id ∉ done) : Relays clock clock' done r r where
  id := rfl
  createdAt := rfl
  availableAt := fun ha => ha.trans hclock
  dispatchedAt := by simp [h]

omit [DecidableEq κ] [DecidableEq π] in
theorem Effect.trans {done done' : List κ} {s₁ s₂ s₃ : State κ π ρ} (h : Effect p done s₁ s₂)
    (h' : Effect p done' s₂ s₃) : Effect p (done ++ done') s₁ s₃ := by
  obtain ⟨f, hrows, hf⟩ := h.rows
  obtain ⟨g, hrows', hg⟩ := h'.rows
  refine ⟨h.clock.trans h'.clock, fun q hq => (h'.phase q hq).trans (h.phase q hq), g ∘ f, ?_, ?_⟩
  · rw [hrows', hrows, List.map_map]
  · intro r hr
    have hfr := hf r hr
    have hgr := hg (f r) (hrows ▸ List.mem_map_of_mem hr)
    refine ⟨hgr.id.trans hfr.id, hgr.createdAt.trans hfr.createdAt, ?_, ?_⟩
    · exact fun ha => hgr.availableAt (hfr.availableAt ha)
    · rw [Function.comp, hgr.dispatchedAt, hfr.dispatchedAt, hfr.id, List.mem_append, or_assoc]

omit [DecidableEq κ] in
/-- The effect of one statement. -/
theorem effect_updateWhere {clock : ℤ} {queue : ρ} {sent : List (WelcomeMailJob κ)}
    {phase : Phase κ π} {done : List κ} {q : WelcomeMailOutbox κ π → Prop} [DecidablePred q]
    {f : WelcomeMailOutbox κ π → WelcomeMailOutbox κ π} (hclock : s.clock ≤ clock)
    (hf : ∀ r ∈ s.rows, q r → Relays s.clock clock done r (f r))
    (hnot : ∀ r ∈ s.rows, ¬ q r → r.id ∉ done) :
    Effect p done s ⟨clock, updateWhere q f s.rows, queue, sent,
      Function.update s.phase p phase⟩ := by
  refine ⟨hclock, fun q hq => Function.update_of_ne hq _ _, _, rfl, ?_⟩
  intro r hr
  by_cases hq : q r
  · rw [if_pos hq]
    exact hf r hr hq
  · rw [if_neg hq]
    exact .refl hclock (hnot r hr hq)

/-- The loop dispatches its entries up to the first of `P`. -/
theorem Loop.effect {entries : List (ClaimedWelcomeMailOutbox κ π)} {es : List (Event κ π ρ)}
    (h : Loop P p entries es) (hp : s.phase p = next entries)
    (hleased : ∀ e ∈ entries, e.leaseOwner = p ∧
      ∀ r ∈ s.rows, r.id = e.id → r.leaseOwner = some p)
    (hids : (entries.map (·.id)).Nodup) (hr : run (step bull) s es = some s') :
    ∃ done rest, entries = done ++ rest ∧ (∀ e ∈ done, ¬ P e.id) ∧ (∀ e ∈ rest.head?, P e.id) ∧
      Effect p (done.map (·.id)) s s' := by
  induction h generalizing s with
  | nil =>
      cases hr
      refine ⟨[], [], rfl, by simp, by simp, le_rfl, fun _ _ => rfl, _, (List.map_id _).symm, ?_⟩
      exact fun r _ => .refl le_rfl (List.not_mem_nil)
  | @dispatches entry rest es now hP hrest ih =>
      obtain ⟨hnow, hr⟩ := (run_dispatches hp).mp hr
      obtain ⟨howner, hrow⟩ := hleased entry List.mem_cons_self
      obtain ⟨hnot, hids⟩ := List.nodup_cons.mp hids
      have hrest : ∀ e ∈ rest, e.leaseOwner = p ∧
          ∀ r ∈ markDispatched entry.id entry.leaseOwner now s.rows,
            r.id = e.id → r.leaseOwner = some p := by
        intro e he
        refine ⟨(hleased e (List.mem_cons_of_mem _ he)).1, ?_⟩
        intro r hr hid
        rcases mem_updateWhere hr with hr | ⟨r₀, -, hl, rfl⟩
        · exact (hleased e (List.mem_cons_of_mem _ he)).2 r hr hid
        · have heq : entry.id = e.id := hl.1.symm.trans hid
          exact absurd (List.mem_map.mpr ⟨e, he, heq.symm⟩) hnot
      obtain ⟨done, rest', rfl, hdone, hhead, heffect⟩ :=
        ih (Function.update_self ..) hrest hids hr
      refine ⟨entry :: done, rest', rfl, List.forall_mem_cons.mpr ⟨hP, hdone⟩, hhead, ?_⟩
      change Effect p ([entry.id] ++ done.map (·.id)) s s'
      refine Effect.trans (effect_updateWhere hnow ?_ ?_) heffect
      · intro r _ hl
        refine ⟨rfl, rfl, fun ha => ha.trans hnow, ?_⟩
        simp [WelcomeMailOutbox.dispatch, hl.1]
      · intro r hr hl hid
        rw [List.mem_singleton] at hid
        exact hl ⟨hid, howner ▸ hrow r hr hid⟩
  | @defers entry rest now hP =>
      obtain ⟨hnow, rfl⟩ := (run_defers hp).mp hr
      refine ⟨[], entry :: rest, rfl, by simp, by simpa using hP, ?_⟩
      refine effect_updateWhere hnow ?_ (fun r _ _ => List.not_mem_nil)
      intro r _ hl
      exact ⟨rfl, rfl, fun _ => le_rfl, by simp [WelcomeMailOutbox.unlease]⟩

/-- **What a pass does.**  It dispatches the entries it has claimed up to the first of `P`. -/
theorem Pass.effect (h : Pass bull P entries s s') (hids : (s.rows.map (·.id)).Nodup) :
    ∃ p now done rest, s.clock ≤ now ∧ (∀ r ∈ s.rows, ∀ t ∈ r.leaseExpiresAt, t ≤ now) ∧
      Selects now RELAY_BATCH_SIZE [] s.rows entries ∧ entries = done ++ rest ∧
      (∀ r ∈ done, ¬ P r.id) ∧ (∀ r ∈ rest.head?, P r.id) ∧
      Effect p (done.map (·.id)) s s' := by
  obtain ⟨p, now, now', es, hexpired, hloop, hr⟩ := h
  obtain ⟨-, hnow, hnow', hsel, hr⟩ := run_start.mp hr
  have hmap : (entries.map fun r => r.claimed p).map (·.id) = entries.map (·.id) := by
    rw [List.map_map]
    rfl
  have hleased : ∀ e ∈ entries.map fun r => r.claimed p, e.leaseOwner = p ∧
      ∀ r ∈ claim p (now + LEASE_DURATION_MS) entries s.rows,
        r.id = e.id → r.leaseOwner = some p := by
    intro e he
    obtain ⟨r₁, hr₁, rfl⟩ := List.mem_map.mp he
    refine ⟨rfl, ?_⟩
    rintro r hr (hid : r.id = r₁.id)
    have hmem : ∀ r₀ : WelcomeMailOutbox κ π, r₀.id = r₁.id → r₀.id ∈ entries.map (·.id) :=
      fun r₀ h => List.mem_map.mpr ⟨r₁, hr₁, h.symm⟩
    obtain ⟨r₀, hr₀, rfl⟩ := List.mem_map.mp hr
    split
    · rfl
    · rename_i hnot
      rw [if_neg hnot] at hid
      exact absurd (hmem r₀ hid) hnot
  have hsub : (entries.map (·.id)).Nodup := hsel.nodup_ids hids
  obtain ⟨done', rest', hsplit, hdone, hhead, heffect⟩ :=
    hloop.effect (Function.update_self ..) hleased (hmap ▸ hsub) hr
  obtain ⟨done, rest, rfl, rfl, rfl⟩ := List.map_eq_append_iff.mp hsplit
  refine ⟨p, now', done, rest, hnow.trans hnow', fun r hr t ht => (hexpired r hr t ht).trans hnow',
    hsel, rfl, ?_, ?_, ?_⟩
  · intro r hr
    exact hdone _ (List.mem_map_of_mem hr)
  · intro r hr
    refine hhead (r.claimed p) ?_
    rw [List.head?_map, Option.mem_def.mp hr]
    rfl
  · rw [List.map_map] at heffect
    change Effect p ([] ++ done.map (·.id)) s s'
    refine Effect.trans (effect_updateWhere (hnow.trans hnow') ?_ ?_) heffect
    · intro r _ _
      refine ⟨rfl, rfl, fun ha => ha.trans (hnow.trans hnow'), ?_⟩
      simp [WelcomeMailOutbox.lease]
    · exact fun r _ _ => List.not_mem_nil

/-! ### What a pass keeps -/

/-- Every row that is not dispatched will be ready when its lease has expired, and a lease owner
can be drawn. -/
structure Waiting (s : State κ π ρ) : Prop where
  ids : (s.rows.map (·.id)).Nodup
  availableAt : ∀ r ∈ s.rows, r.availableAt ≤ s.clock
  idle : {p | s.phase p = .idle}.Infinite

omit [DecidableEq κ] in
theorem infinite_idle_set {phase : Phase κ π} (h : {q | s.phase q = .idle}.Infinite) :
    {q | (s.set p phase).phase q = .idle}.Infinite := by
  refine (h.sdiff (Set.finite_singleton p)).mono ?_
  rintro q ⟨hq, hne⟩
  exact (Function.update_of_ne hne ..).trans hq

/-- Every reachable state is such. -/
theorem waiting_of_run [Infinite π] {clock : ℤ} {es : List (Event κ π ρ)}
    (hr : run (step bull) (init π bull clock) es = some s) : Waiting s where
  ids := (inv_run hr).ids
  availableAt r h := ((inv_run hr).row r h).availableAt
  idle := by
    refine run_invariant' (I := fun s => {p | s.phase p = .idle}.Infinite) ?_ ?_ hr
    · intro s e s' hidle hs
      cases step_transition hs with
      | polls | claims | addResolves | addRejects | marks | releases | databaseFails | crashes =>
          exact infinite_idle_set hidle
      | ticks | registers | sends | stores | works => exact hidle
    · exact Set.infinite_univ.mono fun _ _ => rfl

omit [DecidableEq κ] [DecidableEq π] in
theorem Waiting.effect {done : List κ} (hw : Waiting s) (h : Effect p done s s') :
    Waiting s' := by
  obtain ⟨f, hrows, hf⟩ := h.rows
  refine ⟨?_, ?_, ?_⟩
  · have hids : (s.rows.map f).map (·.id) = s.rows.map (·.id) := by
      rw [List.map_map]
      exact List.map_congr_left fun r hr => (hf r hr).id
    rw [hrows, hids]
    exact hw.ids
  · intro r' hr'
    rw [hrows] at hr'
    obtain ⟨r, hr, rfl⟩ := List.mem_map.mp hr'
    exact (hf r hr).availableAt (hw.availableAt r hr)
  · refine (hw.idle.sdiff (Set.finite_singleton p)).mono ?_
    rintro q ⟨hq, hne⟩
    exact (h.phase q hne).trans hq

omit [DecidableEq κ] [DecidableEq π] in
theorem Waiting.ready {now : ℤ} (hw : Waiting s) (hnow : s.clock ≤ now)
    (hexpired : ∀ r ∈ s.rows, ∀ t ∈ r.leaseExpiresAt, t ≤ now) {r : WelcomeMailOutbox κ π}
    (hr : r ∈ s.rows) (hd : r.dispatchedAt = none) : Ready now r :=
  ⟨hd, (hw.availableAt r hr).trans hnow, hexpired r hr⟩

theorem Waiting.pass (hw : Waiting s) (h : Pass bull P entries s s') : Waiting s' := by
  obtain ⟨p, now, done, rest, -, -, -, -, -, -, heffect⟩ := h.effect hw.ids
  exact hw.effect heffect

theorem Waiting.passes {n : ℕ} (hw : Waiting s) (h : Passes bull P s n s') : Waiting s' := by
  induction h with
  | zero => exact hw
  | succ _ hpass ih => exact ih.pass hpass

/-! ### Passes that get on -/

/-- A row of `P` is no younger than a row outside `P`, and both are not dispatched. -/
def Blocked (P : κ → Prop) (s : State κ π ρ) : Prop :=
  ∃ r ∈ s.rows, ¬ P r.id ∧ r.dispatchedAt = none ∧
    ∃ r' ∈ s.rows, P r'.id ∧ r'.dispatchedAt = none ∧ r'.createdAt ≤ r.createdAt

omit [DecidableEq κ] [DecidableEq π] in
/-- What is dispatched stays so. -/
theorem Relays.dispatchedAt_eq_none {clock clock' : ℤ} {done : List κ}
    {r r' : WelcomeMailOutbox κ π} (h : Relays clock clock' done r r')
    (hd : r'.dispatchedAt = none) : r.dispatchedAt = none := by
  by_contra hne
  exact h.dispatchedAt.mpr (.inl hne) hd

omit [DecidableEq κ] [DecidableEq π] in
/-- Dispatching rows blocks none. -/
theorem Blocked.of_effect {done : List κ} (h : Effect p done s s') (hb : Blocked P s') :
    Blocked P s := by
  obtain ⟨f, hrows, hf⟩ := h.rows
  obtain ⟨r', hr', hP, hd, q', hq', hPq, hdq, hle⟩ := hb
  rw [hrows] at hr' hq'
  obtain ⟨r, hr, rfl⟩ := List.mem_map.mp hr'
  obtain ⟨q, hq, rfl⟩ := List.mem_map.mp hq'
  rw [(hf r hr).id] at hP
  rw [(hf q hq).id] at hPq
  rw [(hf r hr).createdAt, (hf q hq).createdAt] at hle
  exact ⟨r, hr, hP, (hf r hr).dispatchedAt_eq_none hd, q, hq, hPq,
    (hf q hq).dispatchedAt_eq_none hdq, hle⟩

/-- Where nothing is blocked, a pass dispatches a row outside `P`. -/
theorem Pass.dispatches (h : Pass bull P entries s s') (hw : Waiting s) (hb : ¬ Blocked P s)
    {r : WelcomeMailOutbox κ π} (hr : r ∈ s.rows) (hP : ¬ P r.id) (hd : r.dispatchedAt = none) :
    ∃ p done, Effect p done s s' ∧
      ∃ r ∈ s.rows, ¬ P r.id ∧ r.dispatchedAt = none ∧ r.id ∈ done := by
  obtain ⟨p, now, done, rest, hnow, hexpired, hsel, rfl, hdone, hhead, heffect⟩ := h.effect hw.ids
  refine ⟨p, _, heffect, ?_⟩
  cases done with
  | cons r₁ done =>
      obtain ⟨hr₁, -, hready⟩ := hsel.ready r₁ List.mem_cons_self
      exact ⟨r₁, hr₁, hdone r₁ List.mem_cons_self, hready.1, List.mem_cons_self⟩
  | nil =>
      -- the first claimed row is of `P`, and the oldest of all: then `r` is blocked by it
      exfalso
      have hready := hw.ready hnow hexpired hr hd
      cases rest with
      | nil =>
          have hlen := (hsel.first r hr ⟨List.not_mem_nil, hready, List.not_mem_nil⟩).1
          exact absurd hlen (Nat.zero_ne_add_one 19)
      | cons q rest =>
          obtain ⟨hq, -, hqready⟩ := hsel.ready q List.mem_cons_self
          have hPq : P q.id := hhead q rfl
          refine hb ⟨r, hr, hP, hd, q, hq, hPq, hqready.1, ?_⟩
          by_cases hmem : r ∈ q :: rest
          · rcases List.mem_cons.mp hmem with rfl | hmem
            · exact absurd hPq hP
            · exact (List.pairwise_cons.mp hsel.oldestFirst).1 r hmem
          · exact (hsel.first r hr ⟨List.not_mem_nil, hready, hmem⟩).2 q List.mem_cons_self

omit [DecidableEq κ] [DecidableEq π] in
theorem countP_map_lt {α : Type*} {f : α → α} {q : α → Bool} {l : List α} {x : α} (hx : x ∈ l)
    (hf : ∀ x ∈ l, q (f x) = true → q x = true) (hq : q x = true) (hfx : q (f x) = false) :
    (l.map f).countP q < l.countP q := by
  obtain ⟨l₁, l₂, rfl⟩ := List.append_of_mem hx
  have h₁ : l₁.countP (q ∘ f) ≤ l₁.countP q :=
    List.countP_mono_left fun x hx => hf x (List.mem_append_left _ hx)
  have h₂ : l₂.countP (q ∘ f) ≤ l₂.countP q :=
    List.countP_mono_left fun x hx => hf x (List.mem_append_right _ (List.mem_cons_of_mem _ hx))
  simp only [List.countP_map, List.countP_append, List.countP_cons, Function.comp_apply, hq, hfx]
  simp only [if_true, Bool.false_eq_true, if_false]
  omega

open Classical in
/-- How many rows outside `P` are not dispatched. -/
noncomputable def remaining (P : κ → Prop) (s : State κ π ρ) : ℕ :=
  s.rows.countP fun r => ¬ P r.id ∧ r.dispatchedAt = none

omit [DecidableEq κ] [DecidableEq π] in
theorem remaining_eq_zero (h : remaining P s = 0) {r : WelcomeMailOutbox κ π} (hr : r ∈ s.rows)
    (hP : ¬ P r.id) : r.dispatchedAt ≠ none := by
  intro hd
  have hnot := List.countP_eq_zero.mp h r hr
  simp [hP, hd] at hnot

omit [DecidableEq κ] [DecidableEq π] in
theorem Effect.remaining_lt {done : List κ} (h : Effect p done s s')
    {r : WelcomeMailOutbox κ π} (hr : r ∈ s.rows) (hP : ¬ P r.id) (hd : r.dispatchedAt = none)
    (hmem : r.id ∈ done) : remaining P s' < remaining P s := by
  classical
  obtain ⟨f, hrows, hf⟩ := h.rows
  have hold : ∀ r ∈ s.rows, ¬ P (f r).id ∧ (f r).dispatchedAt = none →
      ¬ P r.id ∧ r.dispatchedAt = none := by
    rintro r hr ⟨hP, hd⟩
    exact ⟨(hf r hr).id ▸ hP, (hf r hr).dispatchedAt_eq_none hd⟩
  have hgone : (f r).dispatchedAt ≠ none := (hf r hr).dispatchedAt.mpr (.inr hmem)
  rw [remaining, remaining, hrows]
  refine countP_map_lt hr ?_ (by simp [hP, hd]) (by simp [hgone])
  intro r hr h
  exact decide_eq_true (hold r hr (of_decide_eq_true h))

omit [DecidableEq κ] [DecidableEq π] in
theorem Effect.remaining_eq_zero {done : List κ} (h : Effect p done s s')
    (hnone : ∀ r ∈ s.rows, ¬ P r.id → r.dispatchedAt ≠ none) : remaining P s' = 0 := by
  obtain ⟨f, hrows, hf⟩ := h.rows
  rw [remaining, hrows, List.countP_eq_zero]
  intro r' hr' hr
  obtain ⟨r, hmem, rfl⟩ := List.mem_map.mp hr'
  simp only [decide_eq_true_eq] at hr
  obtain ⟨hP, hd⟩ := hr
  rw [(hf r hmem).id] at hP
  exact hnone r hmem hP ((hf r hmem).dispatchedAt_eq_none hd)

theorem Passes.remaining {n : ℕ} (h : Passes bull P s n s') (hw : Waiting s)
    (hb : ¬ Blocked P s) :
    ¬ Blocked P s' ∧ (remaining P s' = 0 ∨ remaining P s' + n ≤ remaining P s) := by
  induction h with
  | zero => exact ⟨hb, .inr le_rfl⟩
  | @succ n s₁ s₂ entries hpasses hpass ih =>
      obtain ⟨hb₁, hle⟩ := ih
      have hw₁ := hw.passes hpasses
      by_cases hr : ∃ r ∈ s₁.rows, ¬ P r.id ∧ r.dispatchedAt = none
      · obtain ⟨r, hr, hP, hd⟩ := hr
        obtain ⟨p, done, heffect, r₁, hr₁, hP₁, hd₁, hmem⟩ := hpass.dispatches hw₁ hb₁ hr hP hd
        have hlt := heffect.remaining_lt hr₁ hP₁ hd₁ hmem
        exact ⟨fun hb => hb₁ (hb.of_effect heffect), .inr (by omega)⟩
      · obtain ⟨p, now, done, rest, -, -, -, -, -, -, heffect⟩ := hpass.effect hw₁.ids
        refine ⟨fun hb => hb₁ (hb.of_effect heffect), .inl (heffect.remaining_eq_zero ?_)⟩
        intro r hmem hP hd
        exact hr ⟨r, hmem, hP, hd⟩

/-- Where nothing is blocked, the passes drain the table. -/
theorem drains_of_not_blocked (hw : Waiting s) (hb : ¬ Blocked P s) : Drains bull P s := by
  refine ⟨MediumClone.Outbox.remaining P s, ?_⟩
  intro s' hpasses r hr hP
  refine remaining_eq_zero ?_ hr hP
  rcases (hpasses.remaining hw hb).2 with h | h
  · exact h
  · omega

/-! ### Passes that can be made -/

/-- The oldest first, and of one age the rows of `P`. -/
def Before (P : κ → Prop) (r r' : WelcomeMailOutbox κ π) : Prop :=
  r.createdAt < r'.createdAt ∨ r.createdAt = r'.createdAt ∧ (P r.id ∨ ¬ P r'.id)

omit [DecidableEq κ] [DecidableEq π] in
theorem Before.createdAt_le {r r' : WelcomeMailOutbox κ π} (h : Before P r r') :
    r.createdAt ≤ r'.createdAt :=
  h.elim le_of_lt fun h => h.1.le

omit [DecidableEq κ] [DecidableEq π] in
theorem Before.trans {r₁ r₂ r₃ : WelcomeMailOutbox κ π} (h : Before P r₁ r₂)
    (h' : Before P r₂ r₃) : Before P r₁ r₃ := by
  rcases h with h | ⟨heq, h⟩
  · exact .inl (h.trans_le h'.createdAt_le)
  · rcases h' with h' | ⟨heq', h'⟩
    · exact .inl (heq.trans_lt h')
    · exact .inr ⟨heq.trans heq', by tauto⟩

omit [DecidableEq κ] [DecidableEq π] in
theorem before_total (r r' : WelcomeMailOutbox κ π) : Before P r r' ∨ Before P r' r := by
  rcases lt_trichotomy r.createdAt r'.createdAt with h | h | h
  · exact .inl (.inl h)
  · by_cases hP : P r.id
    · exact .inl (.inr ⟨h, .inl hP⟩)
    · exact .inr (.inr ⟨h.symm, .inr hP⟩)
  · exact .inr (.inl h)

omit [DecidableEq κ] [DecidableEq π] in
open Classical in
/-- A selection that takes rows in this order. -/
theorem exists_selects (P : κ → Prop) (now : ℤ) (limit : ℕ)
    {rows : List (WelcomeMailOutbox κ π)} (hrows : rows.Nodup) :
    ∃ entries, Selects now limit [] rows entries ∧ ∀ done rest, entries = done ++ rest →
      ∀ r ∈ done, ∀ r' ∈ rows, Ready now r' → r' ∉ done → Before P r r' := by
  obtain ⟨sorted, hpairwise, hperm⟩ : ∃ sorted : List (WelcomeMailOutbox κ π),
      sorted.Pairwise (Before P) ∧ sorted.Perm (rows.filter (Ready now ·)) := by
    refine ⟨(rows.filter (Ready now ·)).mergeSort (Before P · ·), ?_, List.mergeSort_perm _ _⟩
    refine (List.pairwise_mergeSort ?_ ?_ _).imp of_decide_eq_true
    · intro r₁ r₂ r₃ h h'
      exact decide_eq_true ((of_decide_eq_true h).trans (of_decide_eq_true h'))
    · intro r r'
      simpa using before_total r r'
  have hmem : ∀ r, r ∈ sorted ↔ r ∈ rows ∧ Ready now r := by
    intro r
    rw [hperm.mem_iff, List.mem_filter, decide_eq_true_eq]
  have hnodup : sorted.Nodup := hperm.nodup_iff.mpr (hrows.filter _)
  have hsplit : sorted.take limit ++ sorted.drop limit = sorted := List.take_append_drop ..
  refine ⟨sorted.take limit, ?_, ?_⟩
  · constructor
    · exact hnodup.sublist (List.take_sublist ..)
    · intro r hr
      obtain ⟨hrow, hready⟩ := (hmem r).mp (List.mem_of_mem_take hr)
      exact ⟨hrow, List.not_mem_nil, hready⟩
    · exact List.length_take_le ..
    · exact (hpairwise.sublist (List.take_sublist ..)).imp fun h => h.createdAt_le
    · rintro r hr ⟨-, hready, hnot⟩
      have hdrop : r ∈ sorted.drop limit := by
        have h := (hmem r).mpr ⟨hr, hready⟩
        rw [← hsplit] at h
        exact (List.mem_append.mp h).resolve_left hnot
      constructor
      · have hlt := List.length_pos_of_mem hdrop
        rw [List.length_drop] at hlt
        rw [List.length_take]
        omega
      · intro r' hr'
        rw [← hsplit] at hpairwise
        exact ((List.pairwise_append.mp hpairwise).2.2 r' hr' r hdrop).createdAt_le
  · intro done rest heq r hr r' hr' hready hnot
    rw [← hsplit, heq, List.append_assoc] at hpairwise
    refine (List.pairwise_append.mp hpairwise).2.2 r hr r' ?_
    have h := (hmem r').mpr ⟨hr', hready⟩
    rw [← hsplit, heq, List.append_assoc] at h
    exact (List.mem_append.mp h).resolve_left hnot

open Classical in
/-- The loop can be run. -/
theorem exists_loop (bull : BullMq κ ρ) (P : κ → Prop) (p : π)
    (entries : List (ClaimedWelcomeMailOutbox κ π)) (s : State κ π ρ)
    (hp : s.phase p = next entries) :
    ∃ es s', Loop P p entries es ∧ run (step bull) s es = some s' := by
  induction entries generalizing s with
  | nil => exact ⟨[], s, .nil, rfl⟩
  | cons entry rest ih =>
      by_cases hP : P entry.id
      · exact ⟨_, _, .defers s.clock hP, (run_defers hp).mpr ⟨le_rfl, rfl⟩⟩
      · obtain ⟨es, s', hloop, hr⟩ := ih ⟨s.clock,
          markDispatched entry.id entry.leaseOwner s.clock s.rows,
          bull.addWelcomeMail s.queue entry.job, s.sent ++ [entry.job],
          Function.update s.phase p (next rest)⟩ (Function.update_self ..)
        exact ⟨_, s', .dispatches s.clock hP hloop, (run_dispatches hp).mpr ⟨le_rfl, hr⟩⟩

omit [DecidableEq κ] [DecidableEq π] in
/-- All leases expire. -/
theorem exists_expired (clock : ℤ) (rows : List (WelcomeMailOutbox κ π)) :
    ∃ now, clock ≤ now ∧ ∀ r ∈ rows, ∀ t ∈ r.leaseExpiresAt, t ≤ now := by
  induction rows with
  | nil => exact ⟨clock, le_rfl, fun _ h => by cases h⟩
  | cons r rows ih =>
      obtain ⟨now, hclock, hnow⟩ := ih
      refine ⟨max now (r.leaseExpiresAt.getD now), hclock.trans (le_max_left ..), ?_⟩
      intro r₁ hr₁ t ht
      rcases List.mem_cons.mp hr₁ with rfl | hr₁
      · rw [Option.mem_def.mp ht]
        exact le_max_right ..
      · exact (hnow r₁ hr₁ t ht).trans (le_max_left ..)

/-- A pass can be made, and it can take the rows in this order. -/
theorem Waiting.exists_pass (bull : BullMq κ ρ) (P : κ → Prop) (hw : Waiting s) :
    ∃ entries s', Pass bull P entries s s' ∧ ∀ done rest, entries = done ++ rest →
      ∀ r ∈ done, ∀ r' ∈ s.rows, r'.dispatchedAt = none → r' ∉ done → Before P r r' := by
  obtain ⟨p, hp⟩ := hw.idle.nonempty
  obtain ⟨now, hnow, hexpired⟩ := exists_expired s.clock s.rows
  obtain ⟨entries, hsel, hbefore⟩ :=
    exists_selects P now RELAY_BATCH_SIZE (List.Nodup.of_map _ hw.ids)
  obtain ⟨es, s', hloop, hrun⟩ := exists_loop bull P p (entries.map fun r => r.claimed p) ⟨now,
    claim p (now + LEASE_DURATION_MS) entries s.rows, s.queue, s.sent,
    Function.update s.phase p (next (entries.map fun r => r.claimed p))⟩ (Function.update_self ..)
  refine ⟨entries, s', ?_, ?_⟩
  · exact ⟨p, now, now, es, hexpired, hloop, run_start.mpr ⟨hp, hnow, le_rfl, hsel, hrun⟩⟩
  · intro done rest heq r hr r' hr' hd
    exact hbefore done rest heq r hr r' hr' (hw.ready hnow hexpired hr' hd)

/-- Any number of passes can be made. -/
theorem Waiting.exists_passes (bull : BullMq κ ρ) (P : κ → Prop) (hw : Waiting s) (n : ℕ) :
    ∃ s', Passes bull P s n s' := by
  induction n with
  | zero => exact ⟨s, .zero⟩
  | succ n ih =>
      obtain ⟨s₁, hpasses⟩ := ih
      obtain ⟨entries, s₂, hpass, -⟩ := (hw.passes hpasses).exists_pass bull P
      exact ⟨s₂, hpasses.succ hpass⟩

/-! ### Passes that do not get on -/

/-- A pass can be made that leaves the rows blocked. -/
theorem Blocked.pass (bull : BullMq κ ρ) (hw : Waiting s) (hb : Blocked P s) :
    ∃ entries s', Pass bull P entries s s' ∧ Blocked P s' := by
  obtain ⟨r, hr, hP, hd, r', hr', hP', hd', hle⟩ := hb
  obtain ⟨entries, s', hpass, hbefore⟩ := hw.exists_pass bull P
  refine ⟨entries, s', hpass, ?_⟩
  obtain ⟨p, now, done, rest, -, -, hsel, rfl, hdone, -, heffect⟩ := hpass.effect hw.ids
  obtain ⟨f, hrows, hf⟩ := heffect.rows
  have hkept : ∀ r ∈ s.rows, r.dispatchedAt = none → r ∉ done → (f r).dispatchedAt = none := by
    intro r hr hd hnot
    by_contra hne
    rcases (hf r hr).dispatchedAt.mp hne with h | h
    · exact h hd
    · obtain ⟨r₁, hr₁, hid⟩ := List.mem_map.mp h
      have hrow := (hsel.ready r₁ (List.mem_append_left _ hr₁)).1
      exact hnot (List.inj_on_of_nodup_map hw.ids hrow hr hid ▸ hr₁)
  have hnot' : r' ∉ done := fun h => hdone r' h hP'
  -- `r` would come before `r'`, which is of `P`, no younger and not dispatched
  have hnot : r ∉ done := by
    intro h
    rcases hbefore done rest rfl r h r' hr' hd' hnot' with h | ⟨-, h⟩
    · omega
    · tauto
  refine ⟨f r, hrows ▸ List.mem_map_of_mem hr, (hf r hr).id ▸ hP, hkept r hr hd hnot, f r',
    hrows ▸ List.mem_map_of_mem hr', (hf r' hr').id ▸ hP', hkept r' hr' hd' hnot', ?_⟩
  rw [(hf r hr).createdAt, (hf r' hr').createdAt]
  exact hle

theorem Blocked.passes (bull : BullMq κ ρ) (hw : Waiting s) (hb : Blocked P s) (n : ℕ) :
    ∃ s', Passes bull P s n s' ∧ Blocked P s' := by
  induction n with
  | zero => exact ⟨s, .zero, hb⟩
  | succ n ih =>
      obtain ⟨s₁, hpasses, hb₁⟩ := ih
      obtain ⟨entries, s₂, hpass, hb₂⟩ := hb₁.pass bull (hw.passes hpasses)
      exact ⟨s₂, hpasses.succ hpass, hb₂⟩

/-- Where rows are blocked, they may stay so. -/
theorem Blocked.not_drains (hw : Waiting s) (hb : Blocked P s) : ¬ Drains bull P s := by
  rintro ⟨n, hn⟩
  obtain ⟨s', hpasses, r, hr, hP, hd, -⟩ := hb.passes bull hw n
  exact hn s' hpasses r hr hP hd

/-- **When the passes drain the table.**  After some number of passes every row outside `P` is
dispatched, exactly when each of these that is not was created before every row of `P`. -/
theorem drains_iff (hw : Waiting s) :
    Drains bull P s ↔ ∀ r ∈ s.rows, ¬ P r.id → r.dispatchedAt = none →
      ∀ r' ∈ s.rows, P r'.id → r'.dispatchedAt = none → r.createdAt < r'.createdAt := by
  constructor
  · intro h r hr hP hd r' hr' hP' hd'
    by_contra hle
    exact Blocked.not_drains hw ⟨r, hr, hP, hd, r', hr', hP', hd', not_lt.mp hle⟩ h
  · intro h
    refine drains_of_not_blocked hw ?_
    rintro ⟨r, hr, hP, hd, r', hr', hP', hd', hle⟩
    exact absurd (h r hr hP hd r' hr' hP' hd') (not_lt.mpr hle)

end

/-! ### Two mails -/

/-- The mails of two users, who register one after the other. -/
def twoMails : List (Event Bool ℕ (List (Job Bool))) :=
  [.register false [] [] 0, .tick 1, .register true [] [] 1]

theorem run_twoMails : run (step (listQueue Bool)) (init ℕ (listQueue Bool) 0) twoMails =
    some ⟨1, [.registered false [] [] 0, .registered true [] [] 1], [], [], fun _ => .idle⟩ :=
  rfl

/-- When the add of the younger fails, the older is dispatched. -/
theorem drains_iff_youngerFails :
    ∃ s, run (step (listQueue Bool)) (init ℕ (listQueue Bool) 0) twoMails = some s ∧
      Drains (listQueue Bool) (· = true) s := by
  refine ⟨_, run_twoMails, (drains_iff (waiting_of_run run_twoMails)).mpr ?_⟩
  simp [WelcomeMailOutbox.registered]

/-- When the add of the older fails, the younger is never dispatched. -/
theorem not_drains_olderFails :
    ∃ s, run (step (listQueue Bool)) (init ℕ (listQueue Bool) 0) twoMails = some s ∧
      (∀ r ∈ s.rows, r.dispatchedAt = none) ∧ ¬ Drains (listQueue Bool) (· = false) s := by
  refine ⟨_, run_twoMails, by simp [WelcomeMailOutbox.registered], ?_⟩
  refine Blocked.not_drains (waiting_of_run run_twoMails) ?_
  simp [Blocked, WelcomeMailOutbox.registered]

end MediumClone.Outbox
