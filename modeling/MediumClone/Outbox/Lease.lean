import MediumClone.Outbox.Relay

/-!
# Outbox — Lease

The statements of `TypeOrmWelcomeMailOutboxStore` by any number of workers in any order.  A worker
may call `markDispatched` and `release` for any row, with any lease owner, however late; a worker
that crashes makes no more calls.  `claimReady` is one step and draws a lease owner that was not
drawn before; it commits with any expiry, and its answer may be lost.

A step changes every row by itself (`Change`, `step_rows`), so what holds of the rows of a run is a
statement about the changes of one row: its shape (`Shaped`), its attempts, and what becomes of a
lease (`Held`).  Passes of the relay make such calls only (`relay_refines`).
-/

namespace MediumClone.Outbox.Lease
open Js Sys

structure State (κ π : Type*) where
  clock : ℤ
  rows : List (WelcomeMailOutbox κ π)
  /-- The lease owners drawn so far. -/
  owners : List π

inductive Event (κ π : Type*) where
  | tick (now : ℤ)
  | register (id : κ) (email username : Str) (now : ℤ)
  | claimReady (leaseOwner : π) (leaseExpiresAt now : ℤ) (limit : ℕ) (skipped : List κ)
      (entries : List (WelcomeMailOutbox κ π))
  | markDispatched (outboxId : κ) (leaseOwner : π) (now : ℤ)
  | release (outboxId : κ) (leaseOwner : π) (now : ℤ)

variable {κ π : Type*}

def init (κ π : Type*) (clock : ℤ) : State κ π where
  clock := clock
  rows := []
  owners := []

/-- The event is a call of `claimReady` that returns the row `id`. -/
def Claims (id : κ) : Event κ π → Prop
  | .claimReady _ _ _ _ _ entries => id ∈ entries.map (·.id)
  | _ => False

/-- Pending, dispatching or dispatched, in every column. -/
def Shaped (r : WelcomeMailOutbox κ π) : Prop :=
  match r.status with
  | .pending => r.leaseOwner = none ∧ r.leaseExpiresAt = none ∧ r.dispatchedAt = none
  | .dispatching => r.leaseOwner ≠ none ∧ r.leaseExpiresAt ≠ none ∧ r.dispatchedAt = none
  | .dispatched => r.leaseOwner = none ∧ r.leaseExpiresAt = none ∧ r.dispatchedAt ≠ none

variable [DecidableEq κ] [DecidableEq π]

instance (id : κ) : DecidablePred (Claims (π := π) id)
  | .claimReady .. => inferInstanceAs (Decidable (_ ∈ _))
  | .tick _ | .register .. | .markDispatched .. | .release .. => inferInstanceAs (Decidable False)

def step (s : State κ π) : Event κ π → Option (State κ π)
  | .tick now => if s.clock ≤ now then some { s with clock := now } else none
  | .register id email username now =>
    if id ∉ s.rows.map (·.id) then
      some { s with rows := s.rows ++ [.registered id email username now] }
    else none
  | .claimReady leaseOwner leaseExpiresAt now limit skipped entries =>
    if leaseOwner ∉ s.owners ∧ now ≤ s.clock ∧ Selects now limit skipped s.rows entries then
      some { s with
        rows := claim leaseOwner leaseExpiresAt entries s.rows
        owners := leaseOwner :: s.owners }
    else none
  | .markDispatched outboxId leaseOwner now =>
    some { s with rows := markDispatched outboxId leaseOwner now s.rows }
  | .release outboxId leaseOwner now =>
    some { s with rows := release outboxId leaseOwner now s.rows }

/-! ### What a step does to a row -/

/-- What a step makes of a row. -/
inductive Change (s : State κ π) :
    Event κ π → WelcomeMailOutbox κ π → WelcomeMailOutbox κ π → Prop where
  | kept {e r} (h : ¬ Claims r.id e) : Change s e r r
  | leased {leaseOwner leaseExpiresAt now limit skipped entries r}
      (howner : leaseOwner ∉ s.owners) (hnow : now ≤ s.clock) (hready : Ready now r)
      (hr : r.id ∈ entries.map (·.id)) :
      Change s (.claimReady leaseOwner leaseExpiresAt now limit skipped entries) r
        (r.lease leaseOwner leaseExpiresAt)
  | dispatched {outboxId leaseOwner now r} (h : LeasedBy outboxId leaseOwner r) :
      Change s (.markDispatched outboxId leaseOwner now) r (r.dispatch now)
  | released {outboxId leaseOwner now r} (h : LeasedBy outboxId leaseOwner r) :
      Change s (.release outboxId leaseOwner now) r (r.unlease now)

/-- What the step saves besides. -/
inductive Adds (s : State κ π) : Event κ π → List (WelcomeMailOutbox κ π) → Prop where
  | none {e} : Adds s e []
  | registered {id email username now} (h : id ∉ s.rows.map (·.id)) :
      Adds s (.register id email username now) [.registered id email username now]

variable {s s' : State κ π} {e : Event κ π} {es es' : List (Event κ π)}
  {r r' : WelcomeMailOutbox κ π} {id : κ} {p : π}

omit [DecidableEq κ] [DecidableEq π] in
theorem Change.id_eq (h : Change s e r r') : r'.id = r.id := by
  cases h with
  | kept | leased | dispatched | released => rfl

/-- **What a step does to the rows.**  Each is changed by itself. -/
theorem step_rows (hids : (s.rows.map (·.id)).Nodup) (hs : step s e = some s') :
    ∃ f new, s'.rows = s.rows.map f ++ new ∧ Adds s e new ∧ ∀ r ∈ s.rows, Change s e r (f r) := by
  cases e with
  | tick now =>
      obtain ⟨-, hs⟩ := Option.ite_none_right_eq_some.mp hs
      cases hs
      exact ⟨fun r => r, [], by simp, .none, fun r _ => .kept not_false⟩
  | register id email username now =>
      obtain ⟨hid, hs⟩ := Option.ite_none_right_eq_some.mp hs
      cases hs
      exact ⟨fun r => r, _, by simp, .registered hid, fun r _ => .kept not_false⟩
  | claimReady leaseOwner leaseExpiresAt now limit skipped entries =>
      obtain ⟨⟨howner, hnow, hsel⟩, hs⟩ := Option.ite_none_right_eq_some.mp hs
      cases hs
      refine ⟨_, [], (List.append_nil _).symm, .none, ?_⟩
      intro r hr
      -- the update is by ids, and these are the ids of the selected rows only
      by_cases hmem : r.id ∈ entries.map (·.id)
      · obtain ⟨r₁, hr₁, hid⟩ := List.mem_map.mp hmem
        obtain ⟨hrows, -, hready⟩ := hsel.ready r₁ hr₁
        obtain rfl := List.inj_on_of_nodup_map hids hrows hr hid
        rw [if_pos hmem]
        exact .leased howner hnow hready hmem
      · rw [if_neg hmem]
        exact .kept hmem
  | markDispatched outboxId leaseOwner now =>
      cases hs
      refine ⟨_, [], (List.append_nil _).symm, .none, ?_⟩
      intro r _
      by_cases hl : LeasedBy outboxId leaseOwner r
      · rw [if_pos hl]
        exact .dispatched hl
      · rw [if_neg hl]
        exact .kept not_false
  | release outboxId leaseOwner now =>
      cases hs
      refine ⟨_, [], (List.append_nil _).symm, .none, ?_⟩
      intro r _
      by_cases hl : LeasedBy outboxId leaseOwner r
      · rw [if_pos hl]
        exact .released hl
      · rw [if_neg hl]
        exact .kept not_false

theorem step_clock (hs : step s e = some s') : s.clock ≤ s'.clock := by
  cases e with
  | tick now =>
      obtain ⟨h, hs⟩ := Option.ite_none_right_eq_some.mp hs
      cases hs
      exact h
  | register | claimReady =>
      obtain ⟨-, hs⟩ := Option.ite_none_right_eq_some.mp hs
      cases hs
      exact le_rfl
  | markDispatched | release =>
      cases hs
      exact le_rfl

theorem step_owners (hs : step s e = some s') : s.owners ⊆ s'.owners := by
  cases e with
  | tick | register =>
      obtain ⟨-, hs⟩ := Option.ite_none_right_eq_some.mp hs
      cases hs
      exact List.Subset.refl _
  | claimReady =>
      obtain ⟨-, hs⟩ := Option.ite_none_right_eq_some.mp hs
      cases hs
      exact List.subset_cons_self _ _
  | markDispatched | release =>
      cases hs
      exact List.Subset.refl _

/-- A call of `claimReady` returns rows of the table. -/
theorem mem_rows_of_claims (hs : step s e = some s') (h : Claims id e) :
    id ∈ s.rows.map (·.id) := by
  cases e with
  | claimReady =>
      obtain ⟨⟨-, -, hsel⟩, -⟩ := Option.ite_none_right_eq_some.mp hs
      obtain ⟨r, hr, rfl⟩ := List.mem_map.mp h
      exact List.mem_map_of_mem (hsel.ready r hr).1
  | tick | register | markDispatched | release => cases h

/-! ### Shapes -/

omit [DecidableEq κ] [DecidableEq π] in
theorem Shaped.dispatchedAt_of_owner (h : Shaped r) (hp : r.leaseOwner = some p) :
    r.dispatchedAt = none := by
  unfold Shaped at h
  split at h
  · exact h.2.2
  · exact h.2.2
  · rw [h.1] at hp
    cases hp

omit [DecidableEq κ] [DecidableEq π] in
theorem Shaped.dispatchedAt_ne (h : Shaped r) (hd : r.status = .dispatched) :
    r.dispatchedAt ≠ none := by
  unfold Shaped at h
  rw [hd] at h
  exact h.2.2

omit [DecidableEq κ] [DecidableEq π] in
theorem Change.shaped (h : Change s e r r') (hr : Shaped r) : Shaped r' := by
  cases h with
  | kept => exact hr
  | leased _ _ hready => exact ⟨Option.some_ne_none _, Option.some_ne_none _, hready.1⟩
  | dispatched => exact ⟨rfl, rfl, Option.some_ne_none _⟩
  | released hl => exact ⟨rfl, rfl, hr.dispatchedAt_of_owner hl.2⟩

omit [DecidableEq κ] [DecidableEq π] in
/-- A dispatched row is not ready, and nobody leases it. -/
theorem Change.eq_of_dispatched (h : Change s e r r') (hr : Shaped r)
    (hd : r.dispatchedAt ≠ none) : r' = r := by
  cases h with
  | kept => rfl
  | leased _ _ hready => exact absurd hready.1 hd
  | dispatched hl | released hl => exact absurd (hr.dispatchedAt_of_owner hl.2) hd

structure Inv (s : State κ π) : Prop where
  ids : (s.rows.map (·.id)).Nodup
  shaped : ∀ r ∈ s.rows, Shaped r

omit [DecidableEq κ] [DecidableEq π] in
theorem inv_init (clock : ℤ) : Inv (init κ π clock) where
  ids := List.nodup_nil
  shaped _ hr := by cases hr

theorem Inv.step (hi : Inv s) (hs : step s e = some s') : Inv s' := by
  obtain ⟨f, new, hrows, hnew, hf⟩ := step_rows hi.ids hs
  have hids : (s.rows.map f).map (·.id) = s.rows.map (·.id) := by
    rw [List.map_map]
    exact List.map_congr_left fun r hr => (hf r hr).id_eq
  constructor
  · rw [hrows, List.map_append, hids]
    cases hnew with
    | none => rw [List.map_nil, List.append_nil]; exact hi.ids
    | registered h => exact List.nodup_append_comm.mp (List.nodup_cons.mpr ⟨h, hi.ids⟩)
  · intro r' hr'
    rw [hrows] at hr'
    rcases List.mem_append.mp hr' with hr' | hr'
    · obtain ⟨r, hr, rfl⟩ := List.mem_map.mp hr'
      exact (hf r hr).shaped (hi.shaped r hr)
    · cases hnew with
      | none => cases hr'
      | registered h =>
          rw [List.mem_singleton.mp hr']
          exact ⟨rfl, rfl, rfl⟩

theorem Inv.run (hi : Inv s) (hr : Sys.run Lease.step s es = some s') : Inv s' :=
  run_invariant' (fun _ _ _ hi hs => hi.step hs) hi hr

/-- What becomes of a row. -/
theorem Inv.change (hi : Inv s) (hs : Lease.step s e = some s') (hr : r ∈ s.rows) :
    ∃ r' ∈ s'.rows, Change s e r r' := by
  obtain ⟨f, new, hrows, -, hf⟩ := step_rows hi.ids hs
  refine ⟨f r, ?_, hf r hr⟩
  rw [hrows]
  exact List.mem_append_left _ (List.mem_map_of_mem hr)

/-- Where a row comes from. -/
theorem Inv.origin (hi : Inv s) (hs : Lease.step s e = some s') (hr' : r' ∈ s'.rows) :
    (∃ r ∈ s.rows, Change s e r r') ∨ ∃ new, Adds s e new ∧ r' ∈ new := by
  obtain ⟨f, new, hrows, hnew, hf⟩ := step_rows hi.ids hs
  rw [hrows] at hr'
  rcases List.mem_append.mp hr' with hr' | hr'
  · obtain ⟨r, hr, rfl⟩ := List.mem_map.mp hr'
    exact .inl ⟨r, hr, hf r hr⟩
  · exact .inr ⟨new, hnew, hr'⟩

/-- A dispatched row stays as it is. -/
theorem Inv.dispatched_run (hi : Inv s) (hrun : Sys.run Lease.step s es = some s')
    (hr : r ∈ s.rows) (hd : r.dispatchedAt ≠ none) : r ∈ s'.rows := by
  refine (run_invariant' (I := fun s => Inv s ∧ r ∈ s.rows) ?_ ⟨hi, hr⟩ hrun).2
  rintro s e s' ⟨hi, hr⟩ hs
  obtain ⟨r', hr', hc⟩ := hi.change hs hr
  rw [hc.eq_of_dispatched (hi.shaped r hr) hd] at hr'
  exact ⟨hi.step hs, hr'⟩

/-! ### Attempts -/

/-- A row counts its claims. -/
structure Attempts (es : List (Event κ π)) (s : State κ π) : Prop where
  row : ∀ r ∈ s.rows, r.attemptCount = es.countP (Claims r.id ·)
  unregistered : ∀ id ∉ s.rows.map (·.id), es.countP (Claims id ·) = 0

omit [DecidableEq π] in
theorem Change.attemptCount (h : Change s e r r') :
    r'.attemptCount = r.attemptCount + [e].countP (Claims r.id ·) := by
  rw [List.countP_singleton]
  cases h with
  | kept h => simp [h]
  | leased _ _ _ hr => simp [Claims, hr, WelcomeMailOutbox.lease]
  | dispatched | released => rfl

theorem Attempts.step (ha : Attempts es s) (hi : Inv s) (hs : Lease.step s e = some s') :
    Attempts (es ++ [e]) s' := by
  constructor
  · intro r' hr'
    rw [List.countP_append]
    rcases hi.origin hs hr' with ⟨r, hr, hc⟩ | ⟨new, hnew, hmem⟩
    · rw [hc.attemptCount, hc.id_eq, ha.row r hr]
    · cases hnew with
      | none => cases hmem
      | registered h =>
          rw [List.mem_singleton.mp hmem, WelcomeMailOutbox.registered, ha.unregistered _ h]
          rfl
  · intro id hid
    have hold : id ∉ s.rows.map (·.id) := by
      intro hmem
      obtain ⟨r, hr, rfl⟩ := List.mem_map.mp hmem
      obtain ⟨r', hr', hc⟩ := hi.change hs hr
      exact hid (hc.id_eq ▸ List.mem_map_of_mem hr')
    rw [List.countP_append, ha.unregistered id hold, List.countP_singleton]
    simpa using fun h => hold (mem_rows_of_claims hs h)

theorem attempts_run {clock : ℤ} (hr : run step (init κ π clock) es = some s) :
    Attempts es s := by
  refine (run_history (I := fun es s => Inv s ∧ Attempts es s) ?_ ?_ hr).2
  · rintro es s e s' ⟨hi, ha⟩ hs
    exact ⟨hi.step hs, ha.step hi hs⟩
  · exact ⟨inv_init clock, fun _ hr => (by cases hr), fun _ _ => rfl⟩

/-! ### What becomes of a lease -/

/-- The lease of the row `id` by `p`, which runs until `t`, has not been released. -/
inductive Held (id : κ) (p : π) (t : ℤ) (s : State κ π) : Prop where
  | leased {r : WelcomeMailOutbox κ π} (hr : r ∈ s.rows) (hid : r.id = id)
      (howner : r.leaseOwner = some p) (hexpires : r.leaseExpiresAt = some t)
  | dispatched {r : WelcomeMailOutbox κ π} (hr : r ∈ s.rows) (hid : r.id = id)
      (hd : r.dispatchedAt ≠ none)
  | expired (ht : t ≤ s.clock)

theorem Held.step {t : ℤ} (h : Held id p t s) (hi : Inv s) (he : ∀ now, e ≠ .release id p now)
    (hs : Lease.step s e = some s') : Held id p t s' := by
  cases h with
  | @leased r hr hid howner hexpires =>
      obtain ⟨r', hr', hc⟩ := hi.change hs hr
      cases hc with
      | kept => exact .leased hr' hid howner hexpires
      -- another worker takes a row over only when the lease has run out
      | leased _ hnow hready =>
          exact .expired (((hready.2.2 t hexpires).trans hnow).trans (step_clock hs))
      | dispatched => exact .dispatched hr' hid (Option.some_ne_none _)
      | @released outboxId leaseOwner now _ hl =>
          obtain rfl : outboxId = id := hl.1.symm.trans hid
          obtain rfl : leaseOwner = p := Option.some.inj (hl.2.symm.trans howner)
          exact absurd rfl (he now)
  | @dispatched r hr hid hd =>
      obtain ⟨r', hr', hc⟩ := hi.change hs hr
      rw [hc.eq_of_dispatched (hi.shaped r hr) hd] at hr'
      exact .dispatched hr' hid hd
  | expired ht => exact .expired (ht.trans (step_clock hs))

theorem Held.run {t : ℤ} (h : Held id p t s) (hi : Inv s)
    (hno : ¬ ∃ now, .release id p now ∈ es) (hr : Sys.run Lease.step s es = some s') :
    Held id p t s' := by
  have hmeets : Meets Lease.step (fun _ e => ∀ now, e ≠ .release id p now) s es := by
    refine meets_of_forall ?_
    rintro e he now rfl
    exact hno ⟨now, he⟩
  refine (run_invariant (I := fun s => Inv s ∧ Held id p t s) ?_ hmeets ⟨hi, h⟩ hr).2
  rintro s e s' ⟨hi, h⟩ he hs
  exact ⟨hi.step hs, h.step hi he hs⟩

/-- A row whose lease was not released is claimed again only when the lease has expired. -/
theorem Held.expired_of_claims {t : ℤ} (h : Held id p t s) (hi : Inv s) (he : Claims id e)
    (hs : Lease.step s e = some s') : t ≤ s.clock := by
  have hready : ∀ r ∈ s.rows, r.id = id → ∃ now, now ≤ s.clock ∧ Ready now r := by
    intro r hr hid
    obtain ⟨r', -, hc⟩ := hi.change hs hr
    cases hc with
    | kept hnot => exact absurd (hid ▸ he) hnot
    | leased _ hnow hready => exact ⟨_, hnow, hready⟩
    | dispatched | released => cases he
  cases h with
  | leased hr hid _ hexpires =>
      obtain ⟨now, hnow, h⟩ := hready _ hr hid
      exact (h.2.2 t hexpires).trans hnow
  | dispatched hr hid hd =>
      obtain ⟨now, -, h⟩ := hready _ hr hid
      exact absurd h.1 hd
  | expired ht => exact ht

theorem held_of_claims {leaseExpiresAt now : ℤ} {limit : ℕ} {skipped : List κ}
    {entries : List (WelcomeMailOutbox κ π)} (hi : Inv s) (hid : id ∈ entries.map (·.id))
    (hs : step s (.claimReady p leaseExpiresAt now limit skipped entries) = some s') :
    Held id p leaseExpiresAt s' := by
  obtain ⟨r, hr, rfl⟩ := List.mem_map.mp (mem_rows_of_claims hs hid)
  obtain ⟨r', hr', hc⟩ := hi.change hs hr
  cases hc with
  | kept hnot => exact absurd hid hnot
  | leased => exact .leased hr' rfl rfl rfl

/-- The row `id` is not leased by `p`, who leased something before. -/
structure Lost (id : κ) (p : π) (s : State κ π) : Prop where
  owner : p ∈ s.owners
  row : ∀ r ∈ s.rows, ¬ LeasedBy id p r

/-- A lease owner is drawn once. -/
theorem Lost.step (h : Lost id p s) (hi : Inv s) (hs : Lease.step s e = some s') :
    Lost id p s' := by
  refine ⟨step_owners hs h.owner, ?_⟩
  rintro r' hr' ⟨hid, howner⟩
  rcases hi.origin hs hr' with ⟨r, hr, hc⟩ | ⟨new, hnew, hmem⟩
  · cases hc with
    | kept => exact h.row _ hr ⟨hid, howner⟩
    | leased hfresh =>
        cases howner
        exact hfresh h.owner
    | dispatched | released => cases howner
  · cases hnew with
    | none => cases hmem
    | registered =>
        rw [List.mem_singleton.mp hmem] at howner
        cases howner

theorem Lost.run (h : Lost id p s) (hi : Inv s) (hr : Sys.run Lease.step s es = some s') :
    Lost id p s' :=
  (run_invariant' (I := fun s => Inv s ∧ Lost id p s)
    (fun _ _ _ h hs => ⟨h.1.step hs, h.2.step h.1 hs⟩) ⟨hi, h⟩ hr).2

/-- **The lease state machine.**  In every reachable state a row is pending, dispatching or
dispatched and counts its claims; a dispatched row stays as it is; a row is claimed twice only when
the first lease was released in between or has expired; and a lease owner that is not, or is no
longer, that of the row changes nothing, now or later. -/
theorem lease_state_machine {clock : ℤ} (hr : run step (init κ π clock) es = some s) :
    (∀ r ∈ s.rows, Shaped r) ∧
    (∀ r ∈ s.rows, r.attemptCount = es.countP (Claims r.id ·)) ∧
    (∀ es' s', run step s es' = some s' →
      ∀ r ∈ s.rows, r.status = .dispatched → r ∈ s'.rows) ∧
    (∀ id p leaseExpiresAt now limit skipped entries es₁ es₂ e s',
      es = es₁ ++ .claimReady p leaseExpiresAt now limit skipped entries :: es₂ →
      id ∈ entries.map (·.id) → Claims id e → step s e = some s' →
      (∃ now, .release id p now ∈ es₂) ∨ leaseExpiresAt ≤ s.clock) ∧
    ∀ id p, (∀ r ∈ s.rows, ¬ LeasedBy id p r) →
      (∀ now, markDispatched id p now s.rows = s.rows ∧ release id p now s.rows = s.rows) ∧
      (p ∈ s.owners → ∀ es' s', run step s es' = some s' → ∀ now,
        markDispatched id p now s'.rows = s'.rows ∧ release id p now s'.rows = s'.rows) := by
  have hi : Inv s := (inv_init clock).run hr
  refine ⟨hi.shaped, (attempts_run hr).row, ?_, ?_, ?_⟩
  · intro es' s' hrun r hr hd
    exact hi.dispatched_run hrun hr ((hi.shaped r hr).dispatchedAt_ne hd)
  · intro id p leaseExpiresAt now limit skipped entries es₁ es₂ e s' hes hid he hs
    rw [hes] at hr
    obtain ⟨s₁, hr₁, hr⟩ := run_append.mp hr
    obtain ⟨s₂, hs₂, hr₂⟩ := run_cons.mp hr
    have hi₁ : Inv s₁ := (inv_init clock).run hr₁
    by_cases hrel : ∃ now, .release id p now ∈ es₂
    · exact .inl hrel
    · have hheld : Held id p leaseExpiresAt s :=
        (held_of_claims hi₁ hid hs₂).run (hi₁.step hs₂) hrel hr₂
      exact .inr (hheld.expired_of_claims hi he hs)
  · intro id p hnot
    refine ⟨fun now => ⟨updateWhere_of_not hnot, updateWhere_of_not hnot⟩, ?_⟩
    intro howner es' s' hrun now
    have hlost : Lost id p s' := Lost.run ⟨howner, hnot⟩ hi hrun
    exact ⟨updateWhere_of_not hlost.row, updateWhere_of_not hlost.row⟩

/-- Two workers claim one row, the second when the lease of the first has run out; the first
marks the row late, and then the second does. -/
def takenOver : List (Event Unit Bool) :=
  let row : WelcomeMailOutbox Unit Bool := .registered () [] [] 0
  [.register () [] [] 0, .claimReady false 30000 0 20 [] [row], .tick 30000,
    .claimReady true 60000 30000 20 [] [row.lease false 30000], .markDispatched () false 30000,
    .markDispatched () true 30000]

theorem lease_state_machine_takenOver :
    ∃ s : State Unit Bool, run step (init Unit Bool 0) takenOver = some s ∧
      (∀ r ∈ s.rows, Shaped r) ∧ ∀ r ∈ s.rows, r.attemptCount = 2 := by
  refine ⟨_, by rfl, ?_⟩
  have h := lease_state_machine (show run step (init Unit Bool 0) takenOver = some _ from rfl)
  exact ⟨h.1, h.2.1⟩

/-! ### The relay -/

section

variable {ρ : Type*} {bull : BullMq κ ρ} {t t' : Outbox.State κ π ρ} {ev : Outbox.Event κ π ρ}

/-- The pass has its lease owner. -/
def Drawn : Phase κ π → Prop
  | .idle | .claiming _ => False
  | .adding _ _ | .marking _ _ | .releasing _ | .resolved | .failed => True

/-- The table under a state of the relay. -/
structure Refines (t : Outbox.State κ π ρ) (s : State κ π) : Prop where
  clock : t.clock = s.clock
  rows : t.rows = s.rows
  owners : ∀ p ∈ s.owners, Drawn (t.phase p)

omit [DecidableEq κ] [DecidableEq π] in
theorem drawn_next (entries : List (ClaimedWelcomeMailOutbox κ π)) (answered : Bool) :
    Drawn (if answered then next entries else .failed) := by
  cases answered with
  | false => trivial
  | true =>
      cases entries with
      | nil | cons => trivial

omit [DecidableEq κ] in
theorem drawn_set {q : π} {phase : Phase κ π} (hp : q = p → Drawn phase)
    (h : q ≠ p → Drawn (t.phase q)) : Drawn ((t.set p phase).phase q) := by
  by_cases hq : q = p
  · rw [show (t.set p phase).phase q = phase from hq ▸ Function.update_self ..]
    exact hp hq
  · rw [show (t.set p phase).phase q = t.phase q from Function.update_of_ne hq ..]
    exact h hq

theorem Refines.step (h : Refines t s) (hs : Outbox.step bull t ev = some t') :
    ∃ es s', Sys.run Lease.step s es = some s' ∧ Refines t' s' := by
  obtain ⟨clock, rows, owners⟩ := s
  obtain ⟨rfl, rfl, howners⟩ := h
  have hstep : ∀ {e s'}, Lease.step ⟨t.clock, t.rows, owners⟩ e = some s' → Refines t' s' →
      ∃ es s', Sys.run Lease.step ⟨t.clock, t.rows, owners⟩ es = some s' ∧ Refines t' s' :=
    fun hs h => ⟨[_], _, run_cons.mpr ⟨_, hs, rfl⟩, h⟩
  cases step_transition hs with
  | @ticks now hnow => exact hstep (e := .tick now) (if_pos hnow) ⟨rfl, rfl, howners⟩
  | @registers id email username now hnow hid =>
      exact hstep (e := .register id email username now) (if_pos hid) ⟨rfl, rfl, howners⟩
  | @claims p leaseExpiresAt now skipped entries answered hp hnow hsel =>
      have hfresh : p ∉ owners := by
        intro hmem
        have hdrawn := howners p hmem
        rw [hp] at hdrawn
        exact hdrawn
      refine hstep (e := .claimReady p leaseExpiresAt now RELAY_BATCH_SIZE skipped entries)
        (if_pos ⟨hfresh, hnow, hsel⟩) ⟨rfl, rfl, ?_⟩
      intro q hq
      refine drawn_set (fun _ => drawn_next _ answered) ?_
      intro hne
      exact howners q (List.mem_of_ne_of_mem hne hq)
  | @marks p entry rest now answered hp hnow =>
      exact hstep (e := .markDispatched entry.id entry.leaseOwner now) rfl
        ⟨rfl, rfl, fun q hq => drawn_set (fun _ => drawn_next _ answered) fun _ => howners q hq⟩
  | @releases p entry now hp hnow =>
      exact hstep (e := .release entry.id entry.leaseOwner now) rfl
        ⟨rfl, rfl, fun q hq => drawn_set (fun _ => trivial) fun _ => howners q hq⟩
  | @polls p now hp hnow =>
      refine ⟨[], _, rfl, rfl, rfl, fun q hq => drawn_set ?_ fun _ => howners q hq⟩
      rintro rfl
      have hdrawn := howners q hq
      rw [hp] at hdrawn
      exact hdrawn
  | addResolves | addRejects | databaseFails | crashes =>
      exact ⟨[], _, rfl, rfl, rfl, fun q hq => drawn_set (fun _ => trivial) fun _ => howners q hq⟩
  | sends | stores | works => exact ⟨[], _, rfl, rfl, rfl, howners⟩

/-- **The relay's passes are such workers.**  What its runs make of the table, calls of the store
make of it. -/
theorem relay_refines {clock : ℤ} {evs : List (Outbox.Event κ π ρ)}
    (hr : Sys.run (Outbox.step bull) (Outbox.init π bull clock) evs = some t) :
    ∃ es s, Sys.run Lease.step (Lease.init κ π clock) es = some s ∧ Refines t s := by
  refine run_invariant' (I := fun t => ∃ es s,
    Sys.run Lease.step (Lease.init κ π clock) es = some s ∧ Refines t s) ?_ ?_ hr
  · rintro t e t' ⟨es, s, hrun, h⟩ hs
    obtain ⟨es', s', hrun', h'⟩ := h.step hs
    exact ⟨es ++ es', s', run_append.mpr ⟨s, hrun, hrun'⟩, h'⟩
  · exact ⟨[], _, rfl, rfl, rfl, fun p hp => by cases hp⟩

end

end MediumClone.Outbox.Lease
