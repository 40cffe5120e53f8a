import MediumClone.Auth.Registration
import MediumClone.Outbox.Recovery

/-!
# Outbox — WelcomeMail

The welcome mail from the registration to the queue: concurrent calls of `AuthService.register`
(`src/auth/auth.service.ts`) beside the workers that relay its outbox.  A registration saves its
outbox row in the transaction of its user, so the two appear in one step (`Event.commits`).

* `mail_agreement`: the jobs are the mails of registered accounts, none has two, and what is not
  dispatched is waiting.
* `mail_recovery`: whatever has happened, one worker that polls can get every account its job.
-/

namespace MediumClone.Outbox.WelcomeMail
open Js Sys
open Auth

structure State (ι ω κ ν π ρ : Type*) where
  registration : Registration.State ι ν
  mail : Runner.State ω κ π ρ

inductive Event (ι ω κ π ρ : Type*) where
  | registration (e : Registration.Event ι)
  | mail (e : Runner.Event ω κ π ρ)
  /-- A registration commits its user with the outbox row `outboxId`. -/
  | commits (c : ι) (outboxId : κ) (now : ℤ)

/-- The parts do this together. -/
def isCommit {ι : Type*} : Registration.Event ι → Bool
  | .commits _ => true
  | _ => false

def isRegister {ω κ π ρ : Type*} : Runner.Event ω κ π ρ → Bool
  | .registers _ _ _ _ => true
  | _ => false

section Step

variable {ι ω κ ν π ρ : Type*} [DecidableEq ι] [DecidableEq ω] [DecidableEq κ] [DecidableEq π]

def init (ι ω ν π : Type*) (bull : BullMq κ ρ) (clock : ℤ) : State ι ω κ ν π ρ where
  registration := Registration.init ι ⟨[], []⟩
  mail := Runner.init ω π bull clock

def step (user : ι → Registration.User ν) (bull : BullMq κ ρ) (s : State ι ω κ ν π ρ) :
    Event ι ω κ π ρ → Option (State ι ω κ ν π ρ)
  | .registration e =>
    if isCommit e then none
    else (Registration.step user s.registration e).map fun registration =>
      { s with registration := registration }
  | .mail e =>
    if isRegister e then none
    else (Runner.step bull s.mail e).map fun mail => { s with mail := mail }
  | .commits c outboxId now =>
    (Registration.step user s.registration (.commits c)).bind fun registration =>
      (Runner.step bull s.mail
        (.registers outboxId (user c).email (user c).username now)).map fun mail =>
        ⟨registration, mail⟩

end Step

section Runs

variable {ι ω κ ν π ρ : Type*} [DecidableEq ι] [DecidableEq ω] [DecidableEq κ] [DecidableEq π]
  {user : ι → Registration.User ν} {bull : BullMq κ ρ} {s s' : State ι ω κ ν π ρ}
  {e : Event ι ω κ π ρ} {es : List (Event ι ω κ π ρ)}

inductive Transition (user : ι → Registration.User ν) (bull : BullMq κ ρ)
    (s : State ι ω κ ν π ρ) : Event ι ω κ π ρ → State ι ω κ ν π ρ → Prop where
  | registration {e registration} (he : isCommit e = false)
      (h : Registration.step user s.registration e = some registration) :
      Transition user bull s (.registration e) { s with registration := registration }
  | mail {e mail} (he : isRegister e = false) (h : Runner.step bull s.mail e = some mail) :
      Transition user bull s (.mail e) { s with mail := mail }
  | commits {c outboxId now registration mail}
      (h : Registration.step user s.registration (.commits c) = some registration)
      (hmail : Runner.step bull s.mail
        (.registers outboxId (user c).email (user c).username now) = some mail) :
      Transition user bull s (.commits c outboxId now) ⟨registration, mail⟩

theorem step_transition (hs : step user bull s e = some s') : Transition user bull s e s' := by
  cases e with
  | registration e =>
      obtain ⟨he, hs⟩ := Option.ite_none_left_eq_some.mp hs
      obtain ⟨registration, h, rfl⟩ := Option.map_eq_some_iff.mp hs
      exact .registration (Bool.eq_false_iff.mpr he) h
  | mail e =>
      obtain ⟨he, hs⟩ := Option.ite_none_left_eq_some.mp hs
      obtain ⟨mail, h, rfl⟩ := Option.map_eq_some_iff.mp hs
      exact .mail (Bool.eq_false_iff.mpr he) h
  | commits c outboxId now =>
      obtain ⟨registration, h, hs⟩ := Option.bind_eq_some_iff.mp hs
      obtain ⟨mail, hmail, rfl⟩ := Option.map_eq_some_iff.mp hs
      exact .commits h hmail

/-! ### The parts -/

theorem registration_step (hs : step user bull s e = some s') :
    Reaches (Registration.step user) (fun _ => True) s.registration s'.registration := by
  cases step_transition hs with
  | registration he h => exact .single trivial h
  | mail => exact .refl _
  | commits h => exact .single trivial h

theorem mail_step (hs : step user bull s e = some s') :
    Reaches (Runner.step bull) (fun _ => True) s.mail s'.mail := by
  cases step_transition hs with
  | registration => exact .refl _
  | mail he h => exact .single trivial h
  | commits h hmail => exact .single trivial hmail

/-- What the system does to its registrations is a run of them. -/
theorem registration_run {clock : ℤ}
    (hr : run (step user bull) (init ι ω ν π bull clock) es = some s) :
    ∃ es', run (Registration.step user) (Registration.init ι ⟨[], []⟩) es' =
      some s.registration := by
  obtain ⟨es', -, h⟩ := run_projects (f := State.registration) (fun _ _ _ => registration_step) hr
  exact ⟨es', h⟩

/-- What the system does to its workers is a run of them. -/
theorem mail_run {clock : ℤ} (hr : run (step user bull) (init ι ω ν π bull clock) es = some s) :
    ∃ es', run (Runner.step bull) (Runner.init ω π bull clock) es' = some s.mail := by
  obtain ⟨es', -, h⟩ := run_projects (f := State.mail) (fun _ _ _ => mail_step) hr
  exact ⟨es', h⟩

theorem relay_inv {clock : ℤ} (hr : run (step user bull) (init ι ω ν π bull clock) es = some s) :
    Inv bull s.mail.relay := by
  obtain ⟨es₁, hmail⟩ := mail_run hr
  obtain ⟨es₂, hrelay⟩ := Runner.relay_run hmail
  exact inv_run hrelay

/-! ### One row for each account -/

/-- The rows of the two parts are one table. -/
def Agree (s : State ι ω κ ν π ρ) : Prop :=
  s.mail.relay.mails.map (fun m => (m.email, m.username)) =
    s.registration.tables.outbox.map fun r => (r.email, r.username)

theorem registration_tables {e : Registration.Event ι} {t t' : Registration.State ι ν}
    (h : Registration.step user t e = some t') (he : isCommit e = false) :
    t'.tables = t.tables := by
  cases Registration.step_transition h with
  | commits => cases he
  | _ => rfl

theorem agree_step (h : Agree s) (hs : step user bull s e = some s') : Agree s' := by
  cases step_transition hs with
  | registration he hreg =>
      rw [Agree, registration_tables hreg he]
      exact h
  | mail he hmail =>
      rw [Agree, Runner.mails_step hmail ?_]
      · exact h
      · rintro id email username now rfl
        cases he
  | commits hreg hmail =>
      cases Registration.step_transition hreg with
      | commits =>
          rw [Agree, Runner.mails_registers hmail, Registration.register, List.map_append,
            List.map_append]
          exact congrArg (· ++ _) h

theorem agree_run {clock : ℤ} (hr : run (step user bull) (init ι ω ν π bull clock) es = some s) :
    Agree s := by
  refine run_invariant' (fun _ _ _ h hs => agree_step h hs) ?_ hr
  rfl

/-! ### Accounts -/

/-- The call `c` has registered its account. -/
def Registered (s : State ι ω κ ν π ρ) (c : ι) : Prop := s.registration.phase c = .succeeded

/-- The mail is that of the account of `c`. -/
def Addresses (user : ι → Registration.User ν) (c : ι) (m : WelcomeMailJob κ) : Prop :=
  m.email = (user c).email ∧ m.username = (user c).username

omit [DecidableEq ι] in
theorem outbox_foldl (user : ι → Registration.User ν) (order : List ι)
    (tables : Registration.Tables ν) :
    (order.foldl (fun t c => Registration.register (user c) t) tables).outbox =
        tables.outbox ++ order.map (fun c => (user c).outboxRow) ∧
      (order.foldl (fun t c => Registration.register (user c) t) tables).users =
        tables.users ++ order.map user := by
  induction order generalizing tables with
  | nil => exact ⟨(List.append_nil _).symm, (List.append_nil _).symm⟩
  | cons c order ih =>
      obtain ⟨houtbox, husers⟩ := ih (Registration.register (user c) tables)
      refine ⟨houtbox.trans ?_, husers.trans ?_⟩
      · exact List.append_assoc ..
      · exact List.append_assoc ..

/-- The mails are those of the registered accounts, in the order of their commits, and no two have
one email. -/
structure Accounts (user : ι → Registration.User ν) (s : State ι ω κ ν π ρ) (order : List ι) :
    Prop where
  mem : ∀ c, c ∈ order ↔ Registered s c
  mails : s.mail.relay.mails.map (fun m => (m.email, m.username)) =
    order.map fun c => ((user c).email, (user c).username)
  emails : (order.map fun c => (user c).email).Nodup

theorem accounts_run {clock : ℤ} (hinj : ∀ c c', (user c).id = (user c').id → c = c')
    (hr : run (step user bull) (init ι ω ν π bull clock) es = some s) :
    ∃ order, Accounts user s order := by
  obtain ⟨es', hreg⟩ := registration_run hr
  have hwf : Registration.WellFormed (⟨[], []⟩ : Registration.Tables ν) :=
    ⟨fun _ => List.nodup_nil, List.nodup_nil, .refl _⟩
  have hi := Registration.inv_run hwf hinj (fun _ => List.not_mem_nil) hreg
  have hserial : Serial (fun c => Registration.register (user c)) ⟨[], []⟩
      (fun c => s.registration.phase c = .succeeded) s.registration.tables := by
    refine run_invariant' (I := fun s => Serial (fun c => Registration.register (user c)) ⟨[], []⟩
      (fun c => s.phase c = .succeeded) s.tables) ?_ (.none fun _ => Registration.Phase.noConfusion)
      hreg
    exact fun _ _ _ h hs => Registration.serial_step h hs
  obtain ⟨order, -, hmem, hfold⟩ := hserial
  obtain ⟨houtbox, husers⟩ := outbox_foldl user order ⟨[], []⟩
  rw [hfold, List.nil_append] at houtbox husers
  refine ⟨order, hmem, ?_, ?_⟩
  · rw [agree_run hr, houtbox, List.map_map]
    rfl
  · have hunique := hi.wellFormed.unique .email
    rwa [husers, List.map_map] at hunique

section Accounts

variable {order : List ι}

omit [DecidableEq ι] [DecidableEq ω] [DecidableEq κ] [DecidableEq π]

theorem Accounts.exists_account (h : Accounts user s order) {m : WelcomeMailJob κ}
    (hm : m ∈ s.mail.relay.mails) : ∃ c, Registered s c ∧ Addresses user c m := by
  have hmem : (m.email, m.username) ∈ order.map fun c => ((user c).email, (user c).username) :=
    h.mails ▸ List.mem_map_of_mem hm
  obtain ⟨c, hc, heq⟩ := List.mem_map.mp hmem
  obtain ⟨hemail, husername⟩ := Prod.mk.inj heq
  exact ⟨c, (h.mem c).mp hc, hemail.symm, husername.symm⟩

theorem Accounts.exists_row (h : Accounts user s order) {c : ι} (hc : Registered s c) :
    ∃ r ∈ s.mail.relay.rows, Addresses user c r.job := by
  have hmem : ((user c).email, (user c).username) ∈
      s.mail.relay.mails.map fun m => (m.email, m.username) :=
    h.mails ▸ List.mem_map.mpr ⟨c, (h.mem c).mpr hc, rfl⟩
  obtain ⟨m, hm, heq⟩ := List.mem_map.mp hmem
  obtain ⟨r, hr, rfl⟩ := List.mem_map.mp hm
  exact ⟨r, hr, Prod.mk.inj heq⟩

/-- No two mails have one email. -/
theorem Accounts.mail_unique (h : Accounts user s order) {m m' : WelcomeMailJob κ}
    (hm : m ∈ s.mail.relay.mails) (hm' : m' ∈ s.mail.relay.mails) (heq : m.email = m'.email) :
    m = m' := by
  have hemails := congrArg (List.map Prod.fst) h.mails
  rw [List.map_map, List.map_map] at hemails
  refine List.inj_on_of_nodup_map (f := WelcomeMailJob.email) ?_ hm hm' heq
  exact hemails ▸ h.emails

theorem Accounts.row_unique (h : Accounts user s order) (hi : Inv bull s.mail.relay)
    {r r' : WelcomeMailOutbox κ π} (hr : r ∈ s.mail.relay.rows) (hr' : r' ∈ s.mail.relay.rows)
    (heq : r.email = r'.email) : r = r' := by
  have hjob : r.job = r'.job :=
    h.mail_unique (List.mem_map_of_mem hr) (List.mem_map_of_mem hr') heq
  exact List.inj_on_of_nodup_map hi.ids hr hr' (congrArg WelcomeMailJob.outboxId hjob)

theorem Accounts.job_unique (h : Accounts user s order) (hi : Inv bull s.mail.relay) {j j' : Job κ}
    (hj : j ∈ bull.jobs s.mail.relay.queue) (hj' : j' ∈ bull.jobs s.mail.relay.queue)
    (heq : j.data.email = j'.data.email) : j = j' := by
  obtain ⟨hid, hmem⟩ := hi.jobs j hj
  obtain ⟨hid', hmem'⟩ := hi.jobs j' hj'
  have hdata : j.data = j'.data := h.mail_unique hmem hmem' heq
  refine List.inj_on_of_nodup_map hi.jobIds hj hj' ?_
  exact hid.trans ((congrArg WelcomeMailJob.outboxId hdata).trans hid'.symm)

end Accounts

/-- **Every account has its mail, and no other mail is sent.**  In every run of concurrent
registrations and relaying workers a stored job is the mail of a registered account, with the email
and username it registered, and no two jobs have one email.  Every registered account has one outbox
row: when it is dispatched its job is stored, and when not it is ready once `LEASE_DURATION_MS` have
passed. -/
theorem mail_agreement {clock : ℤ} (hinj : ∀ c c', (user c).id = (user c').id → c = c')
    (hr : run (step user bull) (init ι ω ν π bull clock) es = some s) :
    (∀ j ∈ bull.jobs s.mail.relay.queue, ∃ c, Registered s c ∧ Addresses user c j.data) ∧
    ((bull.jobs s.mail.relay.queue).map (·.data.email)).Nodup ∧
    ∀ c, Registered s c → ∃ r ∈ s.mail.relay.rows, Addresses user c r.job ∧
      (∀ r' ∈ s.mail.relay.rows, r'.email = (user c).email → r' = r) ∧
      (r.dispatchedAt ≠ none → ⟨r.id, r.job⟩ ∈ bull.jobs s.mail.relay.queue) ∧
      (r.dispatchedAt = none →
        ∀ now, s.mail.relay.clock + LEASE_DURATION_MS ≤ now → Ready now r) := by
  obtain ⟨order, h⟩ := accounts_run hinj hr
  have hi := relay_inv hr
  refine ⟨?_, ?_, ?_⟩
  · intro j hj
    exact h.exists_account (hi.jobs j hj).2
  · refine List.Nodup.map_on ?_ (List.Nodup.of_map _ hi.jobIds)
    exact fun j hj j' hj' heq => h.job_unique hi hj hj' heq
  · intro c hc
    obtain ⟨r, hrow, haddr⟩ := h.exists_row hc
    have hri := hi.row r hrow
    refine ⟨r, hrow, haddr, ?_, ?_, ?_⟩
    · intro r' hr' hemail
      exact h.row_unique hi hr' hrow (hemail.trans haddr.1.symm)
    · intro hd
      exact hi.job_of_holds hrow (hri.dispatched hd)
    · intro hd now hnow
      have hclock : s.mail.relay.clock ≤ now := by
        rw [LEASE_DURATION_MS] at hnow
        omega
      exact hri.ready hd hclock fun t ht => (hri.leaseExpiresAt t ht).trans hnow

/-- The system while the worker `w` alone does anything. -/
def ByWorker (m : Runner.State ω κ π ρ) (w : ω) (e : Event ι ω κ π ρ) : Prop :=
  ∃ e', e = .mail e' ∧ Runner.Alone m w e'

theorem reaches_mail (user : ι → Registration.User ν) {m : Runner.State ω κ π ρ} {w : ω}
    (h : Reaches (Runner.step bull) (Runner.Alone s.mail w) s.mail m) :
    Reaches (step user bull) (ByWorker s.mail w) s { s with mail := m } := by
  have hstep : ∀ (t : State ι ω κ ν π ρ) (m : Runner.State ω κ π ρ) e' m',
      t = { s with mail := m } → Runner.Alone s.mail w e' → Runner.step bull m e' = some m' →
      ∃ t', Reaches (step user bull) (ByWorker s.mail w) t t' ∧ t' = { s with mail := m' } := by
    rintro t m e' m' rfl he hs
    have hregister : isRegister e' = false := by
      cases e' with
      | registers => exact absurd he not_false
      | _ => rfl
    refine ⟨_, .single ⟨e', rfl, he⟩ ?_, rfl⟩
    simp [step, hregister, hs]
  obtain ⟨s', hs', rfl⟩ := h.lift hstep rfl
  exact hs'

/-- **No account is left without its mail.**  Whatever has happened, a worker that polls can alone,
from there, get every registered account its one job. -/
theorem mail_recovery [Infinite π] {clock : ℤ} (hinj : ∀ c c', (user c).id = (user c').id → c = c')
    (hr : run (step user bull) (init ι ω ν π bull clock) es = some s) {w : ω}
    (hw : (s.mail.worker w).stage = .polling) :
    ∃ s', Reaches (step user bull) (ByWorker s.mail w) s s' ∧
      s'.registration = s.registration ∧
      ∀ c, Registered s c → ∃! j, j ∈ bull.jobs s'.mail.relay.queue ∧ Addresses user c j.data := by
  obtain ⟨es', hmail⟩ := mail_run hr
  obtain ⟨m, hm, -, hall⟩ := Runner.recovers hmail hw
  have hreach := reaches_mail user hm
  obtain ⟨es₁, hr₁⟩ := hreach.exists_run hr
  obtain ⟨order, h⟩ := accounts_run hinj hr₁
  refine ⟨_, hreach, rfl, ?_⟩
  intro c hc
  obtain ⟨r, hrow, haddr⟩ := h.exists_row (c := c) hc
  obtain ⟨-, hjob⟩ := hall r hrow
  refine ⟨⟨r.id, r.job⟩, ⟨hjob, haddr⟩, ?_⟩
  rintro j ⟨hj, hemail, -⟩
  exact h.job_unique (relay_inv hr₁) hj hjob (hemail.trans haddr.1.symm)

end Runs

/-! ### Two accounts and a worker that dies -/

def newcomers (c : Bool) : Registration.User Bool :=
  ⟨c, if c then ['j'] else ['k'], if c then ['a'] else ['b'], []⟩

def signUp (c : Bool) : List (Event Bool Bool Bool ℕ (List (Job Bool))) :=
  [.registration (.starts c), .registration (.finds c), .registration (.finds c),
    .registration (.hashes c), .registration (.enters c none), .registration (.enters c none),
    .registration (.savesOutbox c), .commits c c 0]

/-- Two accounts are registered, and a worker dies when it has claimed their rows. -/
def orphaned : List (Event Bool Bool Bool ℕ (List (Job Bool))) :=
  signUp true ++ signUp false ++
    [.mail (.onApplicationBootstrap true), .mail (.onApplicationBootstrap false),
      .mail (.relayOnce true (some (0, 0))),
      .mail (.relay (.claims 0 0 [] [.registered true ['a'] ['j'] 0,
        .registered false ['b'] ['k'] 0] true)),
      .mail (.dies true)]

theorem orphaned_runs : ∃ s, run (step newcomers (listQueue Bool))
    (init Bool Bool Bool ℕ (listQueue Bool) 0) orphaned = some s ∧
      (s.mail.worker false).stage = .polling ∧ s.registration.phase true = .succeeded ∧
      s.mail.relay.queue = [] := by
  refine ⟨_, rfl, rfl, rfl, rfl⟩

theorem newcomers_id (c c' : Bool) (h : (newcomers c).id = (newcomers c').id) : c = c' := h

theorem mail_agreement_orphaned : ∃ s, run (step newcomers (listQueue Bool))
    (init Bool Bool Bool ℕ (listQueue Bool) 0) orphaned = some s ∧
      ∃ r ∈ s.mail.relay.rows, r.email = ['a'] ∧
        (r.dispatchedAt = none →
          ∀ now, s.mail.relay.clock + LEASE_DURATION_MS ≤ now → Ready now r) := by
  obtain ⟨s, hs, -, hreg, -⟩ := orphaned_runs
  obtain ⟨-, -, hrows⟩ := mail_agreement newcomers_id hs
  obtain ⟨r, hr, haddr, -, -, hready⟩ := hrows true hreg
  exact ⟨s, hs, r, hr, haddr.1, hready⟩

theorem mail_recovery_orphaned : ∃ s s', run (step newcomers (listQueue Bool))
    (init Bool Bool Bool ℕ (listQueue Bool) 0) orphaned = some s ∧ s.mail.relay.queue = [] ∧
      Reaches (step newcomers (listQueue Bool)) (ByWorker s.mail false) s s' ∧
      ∃! j, j ∈ s'.mail.relay.queue ∧ Addresses newcomers true j.data := by
  obtain ⟨s, hs, hw, hreg, hqueue⟩ := orphaned_runs
  obtain ⟨s', hreach, -, hjobs⟩ := mail_recovery newcomers_id hs hw
  exact ⟨s, s', hs, hqueue, hreach, hjobs true hreg⟩

end MediumClone.Outbox.WelcomeMail
