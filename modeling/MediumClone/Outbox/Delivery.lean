import MediumClone.Outbox.Relay

/-!
# Outbox — Delivery

What is dispatched is in the queue, once, and what is not dispatched will be ready again
(`delivery_sound`).

A pass marks an entry only after its add has resolved, and then the queue holds a job of the
entry's id (`PhaseInv`).  Whose lease the mark finds does not matter: every job, and every add on
its way, carries the mail of a row (`Inv.jobs`, `Inv.sent`), and mails, stored jobs and the clock
only grow (`Grows`).
-/

namespace MediumClone.Outbox
open Js Sys

variable {κ π ρ : Type*} {bull : BullMq κ ρ} {s s' : State κ π ρ} {e : Event κ π ρ}
  {r : WelcomeMailOutbox κ π}

/-- The mails that were registered. -/
def State.mails (s : State κ π ρ) : List (WelcomeMailJob κ) := s.rows.map (·.job)

/-- What a pass holds are mails of rows, and what it marks is in the queue. -/
def PhaseInv (bull : BullMq κ ρ) (s : State κ π ρ) : Phase κ π → Prop
  | .claiming leaseExpiresAt => leaseExpiresAt ≤ s.clock + LEASE_DURATION_MS
  | .adding entry rest => ∀ x ∈ entry :: rest, x.job ∈ s.mails
  | .marking entry rest => (∀ x ∈ rest, x.job ∈ s.mails) ∧ bull.Holds s.queue entry.id
  | .idle | .releasing _ | .resolved | .failed => True

structure RowInv (bull : BullMq κ ρ) (s : State κ π ρ) (r : WelcomeMailOutbox κ π) : Prop where
  availableAt : r.availableAt ≤ s.clock
  leaseExpiresAt : ∀ t ∈ r.leaseExpiresAt, t ≤ s.clock + LEASE_DURATION_MS
  dispatched : r.dispatchedAt ≠ none → bull.Holds s.queue r.id

structure Inv (bull : BullMq κ ρ) (s : State κ π ρ) : Prop where
  ids : (s.rows.map (·.id)).Nodup
  row : ∀ r ∈ s.rows, RowInv bull s r
  jobs : ∀ j ∈ bull.jobs s.queue, j.jobId = j.data.outboxId ∧ j.data ∈ s.mails
  jobIds : ((bull.jobs s.queue).map (·.jobId)).Nodup
  sent : ∀ job ∈ s.sent, job ∈ s.mails
  phase : ∀ p, PhaseInv bull s (s.phase p)

theorem inv_init (clock : ℤ) : Inv bull (init π bull clock) where
  ids := List.nodup_nil
  row _ hr := by cases hr
  jobs j hj := by
    rw [show bull.jobs (init π bull clock).queue = [] from bull.jobs_empty] at hj
    cases hj
  jobIds := by
    rw [show bull.jobs (init π bull clock).queue = [] from bull.jobs_empty]
    exact List.nodup_nil
  sent _ h := by cases h
  phase _ := trivial

/-! ### What only grows -/

structure Grows (bull : BullMq κ ρ) (s s' : State κ π ρ) : Prop where
  clock : s.clock ≤ s'.clock
  mails : s.mails ⊆ s'.mails
  holds : ∀ id, bull.Holds s.queue id → bull.Holds s'.queue id

theorem PhaseInv.mono {phase : Phase κ π} (h : PhaseInv bull s phase) (hg : Grows bull s s') :
    PhaseInv bull s' phase := by
  cases phase with
  | claiming t => exact le_trans h (Int.add_le_add_right hg.clock _)
  | adding => exact fun x hx => hg.mails (h x hx)
  | marking => exact ⟨fun x hx => hg.mails (h.1 x hx), hg.holds _ h.2⟩
  | idle | releasing | resolved | failed => trivial

theorem RowInv.mono (h : RowInv bull s r) (hg : Grows bull s s') : RowInv bull s' r where
  availableAt := h.availableAt.trans hg.clock
  leaseExpiresAt t ht := (h.leaseExpiresAt t ht).trans (Int.add_le_add_right hg.clock _)
  dispatched hd := hg.holds _ (h.dispatched hd)

theorem Inv.phase_of (hi : Inv bull s) {p : π} {phase : Phase κ π} (hp : s.phase p = phase) :
    PhaseInv bull s phase :=
  hp ▸ hi.phase p

variable [DecidableEq κ] [DecidableEq π]

theorem Transition.grows (h : Transition bull s e s') : Grows bull s s' := by
  have hmails : s.mails ⊆ s'.mails := by
    rcases h.jobs_rows with heq | ⟨r, -, heq⟩
    · rw [State.mails, State.mails, heq]
      exact List.Subset.refl _
    · intro job hjob
      rw [State.mails, heq]
      exact List.mem_append_left _ hjob
  cases h with
  | ticks h => exact ⟨h, hmails, fun _ h => h⟩
  | stores => exact ⟨le_rfl, hmails, fun _ h => h.addWelcomeMail _⟩
  | works h => exact ⟨le_rfl, hmails, fun _ hid => ((h.map _).mem_iff).mpr hid⟩
  | _ => exact ⟨le_rfl, hmails, fun _ h => h⟩

/-! ### What a step preserves -/

theorem Inv.ids_step (hi : Inv bull s) (h : Transition bull s e s') :
    (s'.rows.map (·.id)).Nodup := by
  have hid : ∀ rows : List (WelcomeMailOutbox κ π),
      rows.map (·.id) = (rows.map (·.job)).map (·.outboxId) := by
    intro rows
    rw [List.map_map]
    rfl
  rcases h.jobs_rows with heq | ⟨r, hr, heq⟩
  · rw [hid, heq, ← hid]
    exact hi.ids
  · rw [hid, heq, List.map_append, ← hid]
    exact List.nodup_append_comm.mp (List.nodup_cons.mpr ⟨hr, hi.ids⟩)

theorem Inv.row_step (hi : Inv bull s) (h : Transition bull s e s') (r : WelcomeMailOutbox κ π)
    (hr : r ∈ s'.rows) : RowInv bull s' r := by
  refine RowInv.mono ?_ h.grows
  cases h.row_cases hi.ids hr with
  | kept hr₀ => exact hi.row r hr₀
  | registered hnow => exact ⟨hnow, fun _ ht => (by cases ht), fun hd => absurd rfl hd⟩
  | @leased p leaseExpiresAt now r₀ hp hnow hr₀ hready =>
      refine ⟨(hi.row r₀ hr₀).availableAt, ?_, (hi.row r₀ hr₀).dispatched⟩
      intro t ht
      cases ht
      exact hi.phase_of hp
  | @dispatched p entry rest now r₀ hp hnow hr₀ hl =>
      refine ⟨(hi.row r₀ hr₀).availableAt, fun _ ht => (by cases ht), ?_⟩
      intro _
      rw [show (r₀.dispatch now).id = entry.id from hl.1]
      exact (hi.phase_of hp).2
  | released hp hnow hr₀ hl =>
      exact ⟨hnow, fun _ ht => (by cases ht), (hi.row _ hr₀).dispatched⟩

theorem Inv.jobs_step (hi : Inv bull s) (h : Transition bull s e s') (j : Job κ)
    (hj : j ∈ bull.jobs s'.queue) : j.jobId = j.data.outboxId ∧ j.data ∈ s'.mails := by
  have hold : j ∈ bull.jobs s.queue → j.jobId = j.data.outboxId ∧ j.data ∈ s'.mails := by
    intro hj
    obtain ⟨hid, hmem⟩ := hi.jobs j hj
    exact ⟨hid, h.grows.mails hmem⟩
  cases h with
  | stores hsent =>
      rcases BullMq.mem_addWelcomeMail hj with hj | rfl
      · exact hold hj
      · exact ⟨rfl, hi.sent _ hsent⟩
  | works hperm => exact hold (hperm.mem_iff.mp hj)
  | _ => exact hold hj

theorem Inv.jobIds_step (hi : Inv bull s) (h : Transition bull s e s') :
    ((bull.jobs s'.queue).map (·.jobId)).Nodup := by
  cases h with
  | stores => exact BullMq.nodup_addWelcomeMail hi.jobIds _
  | works hperm => exact (hperm.map _).nodup_iff.mpr hi.jobIds
  | _ => exact hi.jobIds

theorem Inv.sent_step (hi : Inv bull s) (h : Transition bull s e s') (job : WelcomeMailJob κ)
    (hjob : job ∈ s'.sent) : job ∈ s'.mails := by
  refine h.grows.mails ?_
  cases h with
  | @sends p entry rest hp =>
      rcases List.mem_append.mp hjob with hjob | hjob
      · exact hi.sent job hjob
      · rw [List.mem_singleton.mp hjob]
        exact hi.phase_of hp entry List.mem_cons_self
  | _ => exact hi.sent job hjob

omit [DecidableEq κ] [DecidableEq π] in
theorem phaseInv_next {entries : List (ClaimedWelcomeMailOutbox κ π)}
    (h : ∀ x ∈ entries, x.job ∈ s.mails) (answered : Bool) :
    PhaseInv bull s (if answered then next entries else .failed) := by
  cases answered with
  | false => trivial
  | true =>
      cases entries with
      | nil => trivial
      | cons => exact h

omit [DecidableEq κ] in
theorem phaseInv_set {bull : BullMq κ ρ} (h : ∀ q, PhaseInv bull s (s.phase q)) {p : π}
    {phase : Phase κ π} (hp : PhaseInv bull s phase) (q : π) :
    PhaseInv bull s ((s.set p phase).phase q) :=
  (Function.forall_update_iff s.phase fun _ => PhaseInv bull s).mpr ⟨hp, fun q _ => h q⟩ q

theorem Inv.phase_step (hi : Inv bull s) (h : Transition bull s e s') (q : π) :
    PhaseInv bull s' (s'.phase q) := by
  refine PhaseInv.mono ?_ h.grows
  cases h with
  | polls _ hnow => exact phaseInv_set hi.phase (Int.add_le_add_right hnow _) q
  | @claims p leaseExpiresAt now skipped entries answered hp hnow hsel =>
      refine phaseInv_set hi.phase (phaseInv_next ?_ answered) q
      intro x hx
      obtain ⟨r, hr, rfl⟩ := List.mem_map.mp hx
      exact List.mem_map.mpr ⟨r, (hsel.ready r hr).1, rfl⟩
  | @addResolves p entry rest hp hholds =>
      refine phaseInv_set hi.phase ?_ q
      exact ⟨fun x hx => hi.phase_of hp x (List.mem_cons_of_mem _ hx), hholds⟩
  | @marks p entry rest now answered hp hnow =>
      exact phaseInv_set hi.phase (phaseInv_next (hi.phase_of hp).1 answered) q
  | addRejects | releases | databaseFails | crashes =>
      refine phaseInv_set hi.phase ?_ q
      trivial
  | _ => exact hi.phase q

theorem Inv.step (hi : Inv bull s) (hs : step bull s e = some s') : Inv bull s' :=
  have h := step_transition hs
  ⟨hi.ids_step h, hi.row_step h, hi.jobs_step h, hi.jobIds_step h, hi.sent_step h,
    hi.phase_step h⟩

theorem inv_run {clock : ℤ} {es : List (Event κ π ρ)}
    (hr : run (step bull) (init π bull clock) es = some s) : Inv bull s :=
  run_invariant' (fun _ _ _ hi hs => hi.step hs) (inv_init clock) hr

/-! ### Delivery -/

omit [DecidableEq κ] [DecidableEq π] in
/-- The job of a row's id carries the row's mail. -/
theorem Inv.job_of_holds (hi : Inv bull s) (hr : r ∈ s.rows) (hh : bull.Holds s.queue r.id) :
    ⟨r.id, r.job⟩ ∈ bull.jobs s.queue := by
  obtain ⟨⟨jobId, data⟩, hj, rfl⟩ := List.mem_map.mp hh
  obtain ⟨hid, hmem⟩ := hi.jobs _ hj
  obtain ⟨r', hr', rfl⟩ := List.mem_map.mp hmem
  obtain rfl := List.inj_on_of_nodup_map hi.ids hr hr' hid
  exact hj

omit [DecidableEq κ] [DecidableEq π] in
/-- A row whose lease has run out, or that has none, is ready. -/
theorem RowInv.ready (h : RowInv bull s r) (hd : r.dispatchedAt = none) {now : ℤ}
    (hnow : s.clock ≤ now) (hl : ∀ t ∈ r.leaseExpiresAt, t ≤ now) : Ready now r :=
  ⟨hd, h.availableAt.trans hnow, hl⟩

/-- **Delivery is sound and loses nothing.**  In every reachable state a dispatched row has a job
with its id and mail in the queue, no id has two jobs, and a row that is not dispatched is ready or
becomes ready when its lease, which is no longer than `LEASE_DURATION_MS`, expires. -/
theorem delivery_sound {clock : ℤ} {es : List (Event κ π ρ)}
    (hr : run (step bull) (init π bull clock) es = some s) :
    (∀ r ∈ s.rows, r.dispatchedAt ≠ none → ∃ j ∈ bull.jobs s.queue,
      j.jobId = r.id ∧ j.data.email = r.email ∧ j.data.username = r.username) ∧
    ((bull.jobs s.queue).map (·.jobId)).Nodup ∧
    ∀ r ∈ s.rows, r.dispatchedAt = none → Ready s.clock r ∨
      ∃ t, r.leaseExpiresAt = some t ∧ t ≤ s.clock + LEASE_DURATION_MS ∧
        ∀ now, s.clock ≤ now → t ≤ now → Ready now r := by
  have hi := inv_run hr
  refine ⟨fun r hr hd => ?_, hi.jobIds, fun r hr hd => ?_⟩
  · exact ⟨_, hi.job_of_holds hr ((hi.row r hr).dispatched hd), rfl, rfl, rfl⟩
  · have hrow := hi.row r hr
    cases hl : r.leaseExpiresAt with
    | none =>
        refine .inl (hrow.ready hd le_rfl ?_)
        intro t ht
        rw [hl] at ht
        cases ht
    | some t =>
        refine .inr ⟨t, rfl, hrow.leaseExpiresAt t hl, ?_⟩
        intro now hnow ht
        refine hrow.ready hd hnow ?_
        intro t' ht'
        rw [hl] at ht'
        cases ht'
        exact ht

/-! ### A pass that is overtaken -/

/-- The queue as the list of its jobs. -/
def listQueue (κ : Type) [DecidableEq κ] : BullMq κ (List (Job κ)) where
  jobs := fun q => q
  empty := []
  add := fun q j => if j.jobId ∈ q.map (·.jobId) then q else q ++ [j]
  jobs_empty := rfl
  jobs_add_existing := fun _ _ h => if_pos h
  jobs_add := fun _ _ h => if_neg h

/-- A pass adds its entry and is told of a failure; the job is stored, and a second pass, after the
release, finds it there and marks the row. -/
def overtaken : List (Event Unit Bool (List (Job Unit))) :=
  let row : WelcomeMailOutbox Unit Bool := .registered () [] [] 0
  [.register () [] [] 0, .poll false 0, .claims false 0 [] [row] true, .sends false,
    .addRejects false, .tick 10, .releases false 10, .stores ⟨[], (), []⟩, .poll true 10,
    .claims true 10 [] [(row.lease false 30000).unlease 10] true, .sends true,
    .stores ⟨[], (), []⟩, .addResolves true, .marks true 10 true]

theorem delivery_sound_overtaken :
    ∃ s, run (step (listQueue Unit)) (init Bool (listQueue Unit) 0) overtaken = some s ∧
      (∀ r ∈ s.rows, r.dispatchedAt ≠ none → ∃ j ∈ s.queue,
        j.jobId = r.id ∧ j.data.email = r.email ∧ j.data.username = r.username) ∧
      (s.queue.map (·.jobId)).Nodup ∧
      ∀ r ∈ s.rows, r.dispatchedAt = none → Ready s.clock r ∨
        ∃ t, r.leaseExpiresAt = some t ∧ t ≤ s.clock + LEASE_DURATION_MS ∧
          ∀ now, s.clock ≤ now → t ≤ now → Ready now r := by
  refine ⟨_, by rfl, ?_⟩
  exact @delivery_sound _ _ _ (listQueue Unit) _ _ _ 0 overtaken rfl

end MediumClone.Outbox
