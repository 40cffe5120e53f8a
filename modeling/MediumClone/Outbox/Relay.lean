import MediumClone.Outbox.Store
import MediumClone.Support.Run
import Mathlib.Logic.Function.Basic

/-!
# Outbox — Relay

Passes of `WelcomeMailOutboxRelay.relayReady` (`src/jobs/welcome-mail-outbox-relay.ts`) over the
outbox table and the queue, one step for every `await`, on one clock.  A pass draws a fresh lease
owner, so passes are named by it, whichever worker runs them.

A claim is one step, with the rows as they are when it has locked them; it compares them with the
start of its transaction, which is no later.  An add is sent once or more, and Redis carries it out
at any time after: before the answer, after the caller has been told of a failure, or never.  It
resolves only when the queue holds a job of its id.  The answer to a statement can be lost with the
statement carried out.

`Transition` lists the steps with what each finds and changes, `Transition.row_cases` what becomes
of a row.
-/

namespace MediumClone.Outbox
open Js Sys

def RELAY_BATCH_SIZE : ℕ := 20

/-- Where a pass stands, named by what it awaits. -/
inductive Phase (κ π : Type*) where
  | idle
  | claiming (leaseExpiresAt : ℤ)
  | adding (entry : ClaimedWelcomeMailOutbox κ π) (rest : List (ClaimedWelcomeMailOutbox κ π))
  | marking (entry : ClaimedWelcomeMailOutbox κ π) (rest : List (ClaimedWelcomeMailOutbox κ π))
  | releasing (entry : ClaimedWelcomeMailOutbox κ π)
  | resolved
  /-- With a `WelcomeMailOutboxRelayError` or the error of a statement, or by a crash. -/
  | failed

structure State (κ π ρ : Type*) where
  clock : ℤ
  rows : List (WelcomeMailOutbox κ π)
  queue : ρ
  /-- The adds that Redis may carry out. -/
  sent : List (WelcomeMailJob κ)
  phase : π → Phase κ π

inductive Event (κ π ρ : Type*) where
  | tick (now : ℤ)
  | register (id : κ) (email username : Str) (now : ℤ)
  | poll (p : π) (now : ℤ)
  /-- The transaction of `claimReady` commits. -/
  | claims (p : π) (now : ℤ) (skipped : List κ) (entries : List (WelcomeMailOutbox κ π))
    (answered : Bool)
  | sends (p : π)
  | stores (job : WelcomeMailJob κ)
  | addResolves (p : π)
  | addRejects (p : π)
  | marks (p : π) (now : ℤ) (answered : Bool)
  | releases (p : π) (now : ℤ)
  /-- The statement the pass awaits is rejected, and was not carried out. -/
  | databaseFails (p : π)
  | crashes (p : π)
  /-- The queue goes on with its jobs. -/
  | works (queue : ρ)

/-- The head of the loop over the claimed entries. -/
def next {κ π : Type*} : List (ClaimedWelcomeMailOutbox κ π) → Phase κ π
  | [] => .resolved
  | entry :: rest => .adding entry rest

section Step

variable {κ π ρ : Type*} [DecidableEq κ] [DecidableEq π]

def init (π : Type*) (bull : BullMq κ ρ) (clock : ℤ) : State κ π ρ where
  clock := clock
  rows := []
  queue := bull.empty
  sent := []
  phase := fun _ => .idle

def State.set (s : State κ π ρ) (p : π) (phase : Phase κ π) : State κ π ρ :=
  { s with phase := Function.update s.phase p phase }

def step (bull : BullMq κ ρ) (s : State κ π ρ) : Event κ π ρ → Option (State κ π ρ)
  | .tick now => if s.clock ≤ now then some { s with clock := now } else none
  | .register id email username now =>
    if now ≤ s.clock ∧ id ∉ s.rows.map (·.id) then
      some { s with rows := s.rows ++ [.registered id email username now] }
    else none
  | .poll p now =>
    match s.phase p with
    | .idle =>
      if now ≤ s.clock then some (s.set p (.claiming (now + LEASE_DURATION_MS))) else none
    | _ => none
  | .claims p now skipped entries answered =>
    match s.phase p with
    | .claiming leaseExpiresAt =>
      if now ≤ s.clock ∧ Selects now RELAY_BATCH_SIZE skipped s.rows entries then
        some { s.set p (if answered then next (entries.map fun r => r.claimed p) else .failed) with
          rows := claim p leaseExpiresAt entries s.rows }
      else none
    | _ => none
  | .sends p =>
    match s.phase p with
    | .adding entry _ => some { s with sent := s.sent ++ [entry.job] }
    | _ => none
  | .stores job =>
    if job ∈ s.sent then some { s with queue := bull.addWelcomeMail s.queue job } else none
  | .addResolves p =>
    match s.phase p with
    | .adding entry rest =>
      if bull.Holds s.queue entry.id then some (s.set p (.marking entry rest)) else none
    | _ => none
  | .addRejects p =>
    match s.phase p with
    | .adding entry _ => some (s.set p (.releasing entry))
    | _ => none
  | .marks p now answered =>
    match s.phase p with
    | .marking entry rest =>
      if now ≤ s.clock then
        some { s.set p (if answered then next rest else .failed) with
          rows := markDispatched entry.id entry.leaseOwner now s.rows }
      else none
    | _ => none
  | .releases p now =>
    match s.phase p with
    | .releasing entry =>
      if now ≤ s.clock then
        some { s.set p .failed with rows := release entry.id entry.leaseOwner now s.rows }
      else none
    | _ => none
  | .databaseFails p =>
    match s.phase p with
    | .claiming _ | .marking _ _ | .releasing _ => some (s.set p .failed)
    | _ => none
  | .crashes p =>
    match s.phase p with
    | .idle | .resolved | .failed => none
    | _ => some (s.set p .failed)
  | .works queue =>
    if (bull.jobs queue).Perm (bull.jobs s.queue) then some { s with queue := queue } else none

end Step

/-! ### What a step does -/

section Transition

variable {κ π ρ : Type*} [DecidableEq κ] [DecidableEq π] {bull : BullMq κ ρ}
  {s s' : State κ π ρ} {e : Event κ π ρ}

/-- The steps, each with what the pass finds. -/
inductive Transition (bull : BullMq κ ρ) (s : State κ π ρ) : Event κ π ρ → State κ π ρ → Prop where
  | ticks {now} (h : s.clock ≤ now) : Transition bull s (.tick now) { s with clock := now }
  | registers {id email username now} (hnow : now ≤ s.clock) (hid : id ∉ s.rows.map (·.id)) :
      Transition bull s (.register id email username now)
        { s with rows := s.rows ++ [.registered id email username now] }
  | polls {p now} (hp : s.phase p = .idle) (hnow : now ≤ s.clock) :
      Transition bull s (.poll p now) (s.set p (.claiming (now + LEASE_DURATION_MS)))
  | claims {p leaseExpiresAt now skipped entries answered}
      (hp : s.phase p = .claiming leaseExpiresAt) (hnow : now ≤ s.clock)
      (hsel : Selects now RELAY_BATCH_SIZE skipped s.rows entries) :
      Transition bull s (.claims p now skipped entries answered)
        { s.set p (if answered then next (entries.map fun r => r.claimed p) else .failed) with
          rows := claim p leaseExpiresAt entries s.rows }
  | sends {p entry rest} (hp : s.phase p = .adding entry rest) :
      Transition bull s (.sends p) { s with sent := s.sent ++ [entry.job] }
  | stores {job} (h : job ∈ s.sent) :
      Transition bull s (.stores job) { s with queue := bull.addWelcomeMail s.queue job }
  | addResolves {p entry rest} (hp : s.phase p = .adding entry rest)
      (h : bull.Holds s.queue entry.id) :
      Transition bull s (.addResolves p) (s.set p (.marking entry rest))
  | addRejects {p entry rest} (hp : s.phase p = .adding entry rest) :
      Transition bull s (.addRejects p) (s.set p (.releasing entry))
  | marks {p entry rest now answered} (hp : s.phase p = .marking entry rest)
      (hnow : now ≤ s.clock) :
      Transition bull s (.marks p now answered)
        { s.set p (if answered then next rest else .failed) with
          rows := markDispatched entry.id entry.leaseOwner now s.rows }
  | releases {p entry now} (hp : s.phase p = .releasing entry) (hnow : now ≤ s.clock) :
      Transition bull s (.releases p now)
        { s.set p .failed with rows := release entry.id entry.leaseOwner now s.rows }
  | databaseFails {p} : Transition bull s (.databaseFails p) (s.set p .failed)
  | crashes {p} : Transition bull s (.crashes p) (s.set p .failed)
  | works {queue} (h : (bull.jobs queue).Perm (bull.jobs s.queue)) :
      Transition bull s (.works queue) { s with queue := queue }

theorem step_transition (hs : step bull s e = some s') : Transition bull s e s' := by
  cases e with
  | tick now =>
      obtain ⟨h, hs⟩ := Option.ite_none_right_eq_some.mp hs
      cases hs
      exact .ticks h
  | register id email username now =>
      obtain ⟨⟨hnow, hid⟩, hs⟩ := Option.ite_none_right_eq_some.mp hs
      cases hs
      exact .registers hnow hid
  | poll p now =>
      simp only [step] at hs
      split at hs
      · rename_i hp
        obtain ⟨hnow, hs⟩ := Option.ite_none_right_eq_some.mp hs
        cases hs
        exact .polls hp hnow
      · cases hs
  | claims p now skipped entries answered =>
      simp only [step] at hs
      split at hs
      · rename_i hp
        obtain ⟨⟨hnow, hsel⟩, hs⟩ := Option.ite_none_right_eq_some.mp hs
        cases hs
        exact .claims hp hnow hsel
      · cases hs
  | sends p =>
      simp only [step] at hs
      split at hs
      · rename_i hp
        cases hs
        exact .sends hp
      · cases hs
  | stores job =>
      obtain ⟨h, hs⟩ := Option.ite_none_right_eq_some.mp hs
      cases hs
      exact .stores h
  | addResolves p =>
      simp only [step] at hs
      split at hs
      · rename_i hp
        obtain ⟨h, hs⟩ := Option.ite_none_right_eq_some.mp hs
        cases hs
        exact .addResolves hp h
      · cases hs
  | addRejects p =>
      simp only [step] at hs
      split at hs
      · rename_i hp
        cases hs
        exact .addRejects hp
      · cases hs
  | marks p now answered =>
      simp only [step] at hs
      split at hs
      · rename_i hp
        obtain ⟨hnow, hs⟩ := Option.ite_none_right_eq_some.mp hs
        cases hs
        exact .marks hp hnow
      · cases hs
  | releases p now =>
      simp only [step] at hs
      split at hs
      · rename_i hp
        obtain ⟨hnow, hs⟩ := Option.ite_none_right_eq_some.mp hs
        cases hs
        exact .releases hp hnow
      · cases hs
  | databaseFails p =>
      simp only [step] at hs
      split at hs
      · cases hs
        exact .databaseFails
      · cases hs
        exact .databaseFails
      · cases hs
        exact .databaseFails
      · cases hs
  | crashes p =>
      simp only [step] at hs
      split at hs
      · cases hs
      · cases hs
      · cases hs
      · cases hs
        exact .crashes
  | works queue =>
      obtain ⟨h, hs⟩ := Option.ite_none_right_eq_some.mp hs
      cases hs
      exact .works h

/-- What a row was before the step. -/
inductive Origin (s : State κ π ρ) : WelcomeMailOutbox κ π → Prop where
  | kept {r} (hr : r ∈ s.rows) : Origin s r
  | registered {id email username now} (hnow : now ≤ s.clock) :
      Origin s (.registered id email username now)
  | leased {p leaseExpiresAt now r} (hp : s.phase p = .claiming leaseExpiresAt)
      (hnow : now ≤ s.clock) (hr : r ∈ s.rows) (hready : Ready now r) :
      Origin s (r.lease p leaseExpiresAt)
  | dispatched {p entry rest now r} (hp : s.phase p = .marking entry rest) (hnow : now ≤ s.clock)
      (hr : r ∈ s.rows) (hl : LeasedBy entry.id entry.leaseOwner r) : Origin s (r.dispatch now)
  | released {p entry now r} (hp : s.phase p = .releasing entry) (hnow : now ≤ s.clock)
      (hr : r ∈ s.rows) (hl : LeasedBy entry.id entry.leaseOwner r) : Origin s (r.unlease now)

/-- **What becomes of a row.**  It is kept, or is one that the step claims, marks or releases. -/
theorem Transition.row_cases (h : Transition bull s e s') (hids : (s.rows.map (·.id)).Nodup)
    {r : WelcomeMailOutbox κ π} (hr : r ∈ s'.rows) : Origin s r := by
  cases h with
  | registers hnow =>
      rcases List.mem_append.mp hr with hr | hr
      · exact .kept hr
      · rw [List.mem_singleton.mp hr]
        exact .registered hnow
  | claims hp hnow hsel =>
      rcases mem_updateWhere hr with hr | ⟨r₀, hr₀, hmem, rfl⟩
      · exact .kept hr
      · obtain ⟨r₁, hr₁, hid⟩ := List.mem_map.mp hmem
        obtain ⟨hrows, -, hready⟩ := hsel.ready r₁ hr₁
        obtain rfl := List.inj_on_of_nodup_map hids hrows hr₀ hid
        exact .leased hp hnow hr₀ hready
  | marks hp hnow =>
      rcases mem_updateWhere hr with hr | ⟨r₀, hr₀, hl, rfl⟩
      · exact .kept hr
      · exact .dispatched hp hnow hr₀ hl
  | releases hp hnow =>
      rcases mem_updateWhere hr with hr | ⟨r₀, hr₀, hl, rfl⟩
      · exact .kept hr
      · exact .released hp hnow hr₀ hl
  | _ => exact .kept hr

/-- Rows come at the end, and keep their mail. -/
theorem Transition.jobs_rows (h : Transition bull s e s') :
    s'.rows.map (·.job) = s.rows.map (·.job) ∨
      ∃ r : WelcomeMailOutbox κ π, r.id ∉ s.rows.map (·.id) ∧
        s'.rows.map (·.job) = s.rows.map (·.job) ++ [r.job] := by
  cases h with
  | @registers id email username now hnow hid =>
      exact .inr ⟨.registered id email username now, hid, List.map_append⟩
  | claims => exact .inl (map_job_claim _ _ _ _)
  | marks => exact .inl (map_job_markDispatched _ _ _ _)
  | releases => exact .inl (map_job_release _ _ _ _)
  | _ => exact .inl rfl

end Transition

end MediumClone.Outbox
