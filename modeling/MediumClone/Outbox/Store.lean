import MediumClone.Outbox.Queue
import Mathlib.Data.List.Basic
import Mathlib.Tactic.MkIffOfInductiveProp

/-!
# Outbox — Store

`WelcomeMailOutbox` (`src/jobs/welcome-mail-outbox.entity.ts`) and the three statements of
`TypeOrmWelcomeMailOutboxStore` (`src/jobs/welcome-mail-outbox-store.ts`) as functions on the rows
of the table.  Times are in integer milliseconds; `κ` are the ids of rows, `π` the lease owners.

* `Selects`: what `claimReady` may select.  The order of rows created at one time is not fixed, and
  rows that other transactions hold are skipped, so there are several selections.
* `updateWhere`: the statements change rows in place, and none of them changes what a row says
  about the mail (`map_updateWhere`, and `map_job_claim` with its like).
-/

namespace MediumClone.Outbox
open Js

inductive Status where
  | pending
  | dispatching
  | dispatched
  deriving DecidableEq

/-- A row of `welcome_mail_outbox`. -/
structure WelcomeMailOutbox (κ π : Type*) where
  id : κ
  email : Str
  username : Str
  status : Status
  attemptCount : ℕ
  availableAt : ℤ
  leaseOwner : Option π
  leaseExpiresAt : Option ℤ
  dispatchedAt : Option ℤ
  createdAt : ℤ
  deriving DecidableEq

structure ClaimedWelcomeMailOutbox (κ π : Type*) where
  email : Str
  id : κ
  leaseOwner : π
  username : Str
  deriving DecidableEq

def LEASE_DURATION_MS : ℤ := 30000

section

variable {κ π : Type*}

/-- The mail of a row. -/
def WelcomeMailOutbox.job (r : WelcomeMailOutbox κ π) : WelcomeMailJob κ where
  email := r.email
  outboxId := r.id
  username := r.username

/-- What the relay adds to the queue for an entry. -/
def ClaimedWelcomeMailOutbox.job (entry : ClaimedWelcomeMailOutbox κ π) : WelcomeMailJob κ where
  email := entry.email
  outboxId := entry.id
  username := entry.username

/-- The row a registration saves, with the defaults of its columns. -/
def WelcomeMailOutbox.registered (id : κ) (email username : Str) (now : ℤ) :
    WelcomeMailOutbox κ π where
  id := id
  email := email
  username := username
  status := .pending
  attemptCount := 0
  availableAt := now
  leaseOwner := none
  leaseExpiresAt := none
  dispatchedAt := none
  createdAt := now

/-! ### What `claimReady` selects -/

/-- The `where` of `claimReady`. -/
def Ready (now : ℤ) (r : WelcomeMailOutbox κ π) : Prop :=
  r.dispatchedAt = none ∧ r.availableAt ≤ now ∧ ∀ t ∈ r.leaseExpiresAt, t ≤ now

instance (now : ℤ) (r : WelcomeMailOutbox κ π) : Decidable (Ready now r) :=
  inferInstanceAs (Decidable (_ ∧ _ ∧ _))

/-- The first `limit` rows that are ready and not `skipped`, oldest first. -/
@[mk_iff]
structure Selects (now : ℤ) (limit : ℕ) (skipped : List κ)
    (rows entries : List (WelcomeMailOutbox κ π)) : Prop where
  nodup : entries.Nodup
  ready : ∀ r ∈ entries, r ∈ rows ∧ r.id ∉ skipped ∧ Ready now r
  length_le : entries.length ≤ limit
  oldestFirst : entries.Pairwise fun r r' => r.createdAt ≤ r'.createdAt
  first : ∀ r ∈ rows, r.id ∉ skipped ∧ Ready now r ∧ r ∉ entries →
    entries.length = limit ∧ ∀ r' ∈ entries, r'.createdAt ≤ r.createdAt

instance [DecidableEq κ] [DecidableEq π] (now : ℤ) (limit : ℕ) (skipped : List κ)
    (rows entries : List (WelcomeMailOutbox κ π)) :
    Decidable (Selects now limit skipped rows entries) :=
  decidable_of_iff' _ (selects_iff now limit skipped rows entries)

theorem Selects.nodup_ids {now : ℤ} {limit : ℕ} {skipped : List κ}
    {rows entries : List (WelcomeMailOutbox κ π)} (h : Selects now limit skipped rows entries)
    (hids : (rows.map (·.id)).Nodup) : (entries.map (·.id)).Nodup := by
  refine h.nodup.map_on ?_
  intro r hr r' hr' hid
  exact List.inj_on_of_nodup_map hids (h.ready r hr).1 (h.ready r' hr').1 hid

/-! ### The updates -/

/-- The rows that satisfy `p` are changed by `f`. -/
def updateWhere (p : WelcomeMailOutbox κ π → Prop) [DecidablePred p]
    (f : WelcomeMailOutbox κ π → WelcomeMailOutbox κ π) (rows : List (WelcomeMailOutbox κ π)) :
    List (WelcomeMailOutbox κ π) :=
  rows.map fun r => if p r then f r else r

theorem mem_updateWhere {p : WelcomeMailOutbox κ π → Prop} [DecidablePred p]
    {f : WelcomeMailOutbox κ π → WelcomeMailOutbox κ π} {rows : List (WelcomeMailOutbox κ π)}
    {r' : WelcomeMailOutbox κ π} (h : r' ∈ updateWhere p f rows) :
    r' ∈ rows ∨ ∃ r ∈ rows, p r ∧ r' = f r := by
  obtain ⟨r, hr, rfl⟩ := List.mem_map.mp h
  by_cases hp : p r
  · rw [if_pos hp]
    exact .inr ⟨r, hr, hp, rfl⟩
  · rw [if_neg hp]
    exact .inl hr

theorem mem_updateWhere_of_not {p : WelcomeMailOutbox κ π → Prop} [DecidablePred p]
    {f : WelcomeMailOutbox κ π → WelcomeMailOutbox κ π} {rows : List (WelcomeMailOutbox κ π)}
    {r : WelcomeMailOutbox κ π} (hr : r ∈ rows) (hp : ¬ p r) : r ∈ updateWhere p f rows :=
  List.mem_map.mpr ⟨r, hr, if_neg hp⟩

theorem mem_updateWhere_of_pos {p : WelcomeMailOutbox κ π → Prop} [DecidablePred p]
    {f : WelcomeMailOutbox κ π → WelcomeMailOutbox κ π} {rows : List (WelcomeMailOutbox κ π)}
    {r : WelcomeMailOutbox κ π} (hr : r ∈ rows) (hp : p r) : f r ∈ updateWhere p f rows :=
  List.mem_map.mpr ⟨r, hr, if_pos hp⟩

/-- An update that finds no row changes none. -/
theorem updateWhere_of_not {p : WelcomeMailOutbox κ π → Prop} [DecidablePred p]
    {f : WelcomeMailOutbox κ π → WelcomeMailOutbox κ π} {rows : List (WelcomeMailOutbox κ π)}
    (h : ∀ r ∈ rows, ¬ p r) : updateWhere p f rows = rows :=
  (List.map_congr_left fun r hr => if_neg (h r hr)).trans (List.map_id rows)

/-- What `f` leaves alone, the update leaves alone. -/
theorem map_updateWhere {α : Type*} {g : WelcomeMailOutbox κ π → α}
    {p : WelcomeMailOutbox κ π → Prop} [DecidablePred p]
    {f : WelcomeMailOutbox κ π → WelcomeMailOutbox κ π} (hf : ∀ r, g (f r) = g r)
    (rows : List (WelcomeMailOutbox κ π)) : (updateWhere p f rows).map g = rows.map g := by
  simp only [updateWhere, List.map_map]
  refine List.map_congr_left ?_
  intro r _
  by_cases hp : p r
  · rw [Function.comp, if_pos hp, hf]
  · rw [Function.comp, if_neg hp]

def WelcomeMailOutbox.lease (leaseOwner : π) (leaseExpiresAt : ℤ) (r : WelcomeMailOutbox κ π) :
    WelcomeMailOutbox κ π :=
  { r with
    attemptCount := r.attemptCount + 1
    leaseOwner := some leaseOwner
    leaseExpiresAt := some leaseExpiresAt
    status := .dispatching }

def WelcomeMailOutbox.dispatch (now : ℤ) (r : WelcomeMailOutbox κ π) : WelcomeMailOutbox κ π :=
  { r with
    dispatchedAt := some now
    leaseExpiresAt := none
    leaseOwner := none
    status := .dispatched }

def WelcomeMailOutbox.unlease (now : ℤ) (r : WelcomeMailOutbox κ π) : WelcomeMailOutbox κ π :=
  { r with
    availableAt := now
    leaseExpiresAt := none
    leaseOwner := none
    status := .pending }

/-- The entry `claimReady` returns for a row. -/
def WelcomeMailOutbox.claimed (leaseOwner : π) (r : WelcomeMailOutbox κ π) :
    ClaimedWelcomeMailOutbox κ π where
  email := r.email
  id := r.id
  leaseOwner := leaseOwner
  username := r.username

/-- The `where` of `markDispatched` and of `release`. -/
def LeasedBy (outboxId : κ) (leaseOwner : π) (r : WelcomeMailOutbox κ π) : Prop :=
  r.id = outboxId ∧ r.leaseOwner = some leaseOwner

variable [DecidableEq κ]

/-- The rows after `claimReady` has saved its entries. -/
def claim (leaseOwner : π) (leaseExpiresAt : ℤ) (entries rows : List (WelcomeMailOutbox κ π)) :
    List (WelcomeMailOutbox κ π) :=
  updateWhere (fun r => r.id ∈ entries.map (·.id)) (.lease leaseOwner leaseExpiresAt) rows

variable [DecidableEq π]

instance (outboxId : κ) (leaseOwner : π) :
    DecidablePred (LeasedBy outboxId leaseOwner) :=
  fun _ => inferInstanceAs (Decidable (_ ∧ _))

def markDispatched (outboxId : κ) (leaseOwner : π) (now : ℤ)
    (rows : List (WelcomeMailOutbox κ π)) : List (WelcomeMailOutbox κ π) :=
  updateWhere (LeasedBy outboxId leaseOwner) (.dispatch now) rows

def release (outboxId : κ) (leaseOwner : π) (now : ℤ)
    (rows : List (WelcomeMailOutbox κ π)) : List (WelcomeMailOutbox κ π) :=
  updateWhere (LeasedBy outboxId leaseOwner) (.unlease now) rows

omit [DecidableEq π] in
@[simp] theorem map_job_claim (leaseOwner : π) (leaseExpiresAt : ℤ)
    (entries rows : List (WelcomeMailOutbox κ π)) :
    (claim leaseOwner leaseExpiresAt entries rows).map (·.job) = rows.map (·.job) :=
  map_updateWhere (f := .lease leaseOwner leaseExpiresAt) (fun _ => rfl) rows

@[simp] theorem map_job_markDispatched (outboxId : κ) (leaseOwner : π) (now : ℤ)
    (rows : List (WelcomeMailOutbox κ π)) :
    (markDispatched outboxId leaseOwner now rows).map (·.job) = rows.map (·.job) :=
  map_updateWhere (f := .dispatch now) (fun _ => rfl) rows

@[simp] theorem map_job_release (outboxId : κ) (leaseOwner : π) (now : ℤ)
    (rows : List (WelcomeMailOutbox κ π)) :
    (release outboxId leaseOwner now rows).map (·.job) = rows.map (·.job) :=
  map_updateWhere (f := .unlease now) (fun _ => rfl) rows

end

end MediumClone.Outbox
