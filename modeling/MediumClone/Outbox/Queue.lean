import MediumClone.Support.JsText
import Mathlib.Data.List.Nodup

/-!
# Outbox — Queue

`BullMqWelcomeMailQueue.add` (`src/jobs/welcome-mail-queue.ts`), which gives a job the id of its
outbox row.

BullMQ keeps its jobs in Redis.  All that is used of it is what an add that Redis carries out does
to the stored jobs (`BullMq`); jobs that are done stay stored (`removeOnComplete: false`).
-/

namespace MediumClone.Outbox
open Js

structure WelcomeMailJob (κ : Type*) where
  email : Str
  outboxId : κ
  username : Str
  deriving DecidableEq

/-- A stored job. -/
structure Job (κ : Type*) where
  jobId : κ
  data : WelcomeMailJob κ
  deriving DecidableEq

/-- A BullMQ queue: its states, the jobs stored in each, and `Queue.add`. -/
structure BullMq (κ ρ : Type*) where
  jobs : ρ → List (Job κ)
  empty : ρ
  add : ρ → Job κ → ρ
  jobs_empty : jobs empty = []
  jobs_add_existing : ∀ q j, j.jobId ∈ (jobs q).map (·.jobId) → jobs (add q j) = jobs q
  jobs_add : ∀ q j, j.jobId ∉ (jobs q).map (·.jobId) → jobs (add q j) = jobs q ++ [j]

variable {κ ρ : Type*} {bull : BullMq κ ρ} {q : ρ}

/-- `BullMqWelcomeMailQueue.add`, once Redis carries it out. -/
def BullMq.addWelcomeMail (bull : BullMq κ ρ) (q : ρ) (job : WelcomeMailJob κ) : ρ :=
  bull.add q ⟨job.outboxId, job⟩

/-- There is a job for the outbox row `id`. -/
def BullMq.Holds (bull : BullMq κ ρ) (q : ρ) (id : κ) : Prop :=
  id ∈ (bull.jobs q).map (·.jobId)

instance [DecidableEq κ] (bull : BullMq κ ρ) (q : ρ) (id : κ) : Decidable (bull.Holds q id) :=
  inferInstanceAs (Decidable (_ ∈ _))

theorem BullMq.jobs_addWelcomeMail (bull : BullMq κ ρ) (q : ρ) (job : WelcomeMailJob κ) :
    bull.Holds q job.outboxId ∧ bull.jobs (bull.addWelcomeMail q job) = bull.jobs q ∨
      ¬ bull.Holds q job.outboxId ∧
        bull.jobs (bull.addWelcomeMail q job) = bull.jobs q ++ [⟨job.outboxId, job⟩] := by
  by_cases h : bull.Holds q job.outboxId
  · exact .inl ⟨h, bull.jobs_add_existing q _ h⟩
  · exact .inr ⟨h, bull.jobs_add q _ h⟩

theorem BullMq.mem_addWelcomeMail {job : WelcomeMailJob κ} {j : Job κ}
    (h : j ∈ bull.jobs (bull.addWelcomeMail q job)) :
    j ∈ bull.jobs q ∨ j = ⟨job.outboxId, job⟩ := by
  rcases bull.jobs_addWelcomeMail q job with ⟨-, heq⟩ | ⟨-, heq⟩
  · rw [heq] at h
    exact .inl h
  · rw [heq] at h
    exact (List.mem_append.mp h).imp_right List.mem_singleton.mp

theorem BullMq.holds_addWelcomeMail (bull : BullMq κ ρ) (q : ρ) (job : WelcomeMailJob κ) :
    bull.Holds (bull.addWelcomeMail q job) job.outboxId := by
  rcases bull.jobs_addWelcomeMail q job with ⟨h, heq⟩ | ⟨-, heq⟩
  · rwa [Holds, heq]
  · simp [Holds, heq]

/-- No job is lost. -/
theorem BullMq.Holds.addWelcomeMail {id : κ} (h : bull.Holds q id) (job : WelcomeMailJob κ) :
    bull.Holds (bull.addWelcomeMail q job) id := by
  rcases bull.jobs_addWelcomeMail q job with ⟨-, heq⟩ | ⟨-, heq⟩
  · rwa [Holds, heq]
  · rw [Holds, heq, List.map_append]
    exact List.mem_append_left _ h

/-- No id has two jobs. -/
theorem BullMq.nodup_addWelcomeMail (h : ((bull.jobs q).map (·.jobId)).Nodup)
    (job : WelcomeMailJob κ) :
    ((bull.jobs (bull.addWelcomeMail q job)).map (·.jobId)).Nodup := by
  rcases bull.jobs_addWelcomeMail q job with ⟨-, heq⟩ | ⟨hnot, heq⟩
  · rwa [heq]
  · rw [heq, List.map_append]
    exact List.nodup_append_comm.mp (List.nodup_cons.mpr ⟨hnot, h⟩)

end MediumClone.Outbox
