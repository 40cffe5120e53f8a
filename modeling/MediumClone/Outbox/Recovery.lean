import MediumClone.Outbox.Pass
import MediumClone.Outbox.Rejection
import MediumClone.Outbox.Runner

/-!
# Outbox — Recovery

What one worker can do alone.  However the workers have left the table (passes that hang in a
statement, leases of processes that are gone, jobs that Redis has and nobody has marked), one that
polls can end its own pass, wait for the leases to expire, and dispatch every row (`recovers`).

The passes are those of `Pass` in which every add succeeds, driven by the runner: `relayOnce` begins
one, the relay goes its own steps, and the promise settles.
-/

namespace MediumClone.Outbox
open Js Sys

/-! ### The events of a pass -/

section Loop

variable {κ π ρ : Type*} {P : κ → Prop} {p : π}

/-- A step of the relay's own that moves no pass but `p`. -/
def Of (p : π) (e : Event κ π ρ) : Prop :=
  e.isOwn = true ∧ ∀ q, e.pass = some q → q = p

theorem of_pass {e : Event κ π ρ} (hown : e.isOwn = true) (h : e.pass = some p) : Of p e :=
  ⟨hown, fun _ hq => Option.some.inj (hq.symm.trans h)⟩

theorem of_none {e : Event κ π ρ} (hown : e.isOwn = true) (h : e.pass = none) : Of p e :=
  ⟨hown, fun _ hq => by cases hq.symm.trans h⟩

/-- The loop takes steps of its pass, and of nobody else's. -/
theorem Loop.of {entries : List (ClaimedWelcomeMailOutbox κ π)} {es : List (Event κ π ρ)}
    (h : Loop P p entries es) {e : Event κ π ρ} (he : e ∈ es) : Of p e := by
  induction h with
  | nil => cases he
  | dispatches now hP hrest ih =>
      simp only [List.mem_cons] at he
      rcases he with rfl | rfl | rfl | rfl | rfl | he
      · exact of_pass rfl rfl
      · exact of_none rfl rfl
      · exact of_pass rfl rfl
      · exact of_none rfl rfl
      · exact of_pass rfl rfl
      · exact ih he
  | defers now hP =>
      simp only [List.mem_cons, List.not_mem_nil, or_false] at he
      rcases he with rfl | rfl | rfl | rfl
      · exact of_pass rfl rfl
      · exact of_pass rfl rfl
      · exact of_none rfl rfl
      · exact of_pass rfl rfl

theorem not_open_of_failed {phase : Phase κ π} (h : phase = .failed) : ¬ phase.Open := by
  rw [h]
  exact not_false

variable [DecidableEq κ] [DecidableEq π] {bull : BullMq κ ρ} {s s' : State κ π ρ}

/-- When the loop is over, so is its pass. -/
theorem Loop.ended {entries : List (ClaimedWelcomeMailOutbox κ π)} {es : List (Event κ π ρ)}
    (h : Loop P p entries es) (hp : s.phase p = next entries)
    (hr : run (step bull) s es = some s') : ¬ (s'.phase p).Open := by
  induction h generalizing s with
  | nil =>
      cases hr
      rw [hp]
      exact not_false
  | dispatches now hP hrest ih =>
      exact ih (Function.update_self ..) ((run_dispatches hp).mp hr).2
  | defers now hP =>
      obtain ⟨-, rfl⟩ := (run_defers hp).mp hr
      exact not_open_of_failed (Function.update_self ..)

/-- A statement can fail. -/
theorem reaches_failed (bull : BullMq κ ρ)
    (h : step bull s (.databaseFails p) = some (s.set p .failed)) :
    ∃ s', Reaches (step bull) (Of p) s s' ∧ ¬ (s'.phase p).Open :=
  ⟨_, .single (of_pass rfl rfl) h, not_open_of_failed (Function.update_self ..)⟩

/-- A pass can end, whatever it awaits: a statement can fail, and an add can be rejected. -/
theorem exists_ended (bull : BullMq κ ρ) (s : State κ π ρ) (p : π) :
    ∃ s', Reaches (step bull) (Of p) s s' ∧ ¬ (s'.phase p).Open := by
  cases hp : s.phase p with
  | idle | resolved | failed => exact ⟨s, .refl s, by rw [hp]; exact not_false⟩
  | claiming | marking | releasing => exact reaches_failed bull (by simp only [step, hp])
  | adding entry rest =>
      have hrejects : step bull s (.addRejects p) = some (s.set p (.releasing entry)) := by
        simp only [step, hp]
      have hreleasing : (s.set p (.releasing entry)).phase p = .releasing entry := by
        rw [Runner.phase_set, if_pos rfl]
      obtain ⟨s', hs', hended⟩ := reaches_failed (s := s.set p (.releasing entry)) (p := p) bull
        (by simp only [step, hreleasing])
      exact ⟨s', .trans (.single (of_pass rfl rfl) hrejects) hs', hended⟩

end Loop

namespace Runner

section Runs

variable {ω κ π ρ : Type*} [DecidableEq ω] [DecidableEq κ] [DecidableEq π] {bull : BullMq κ ρ}
  {s s₀ s' : State ω κ π ρ} {w : ω} {t t' : Outbox.State κ π ρ} {promise : Option π}

/-- The events of the worker `w` from `s₀` on: what its runner does, and steps of the relay that
move no pass begun by another. -/
def Alone (s₀ : State ω κ π ρ) (w : ω) : Event ω κ π ρ → Prop
  | .relay e => ∀ p, e.pass = some p → (s₀.relay.phase p).Begun → s₀.Runs w p
  | .relayOnce w' _ | .settles w' => w' = w
  | _ => False

/-- `w` polls over the relay `t`, and awaits `promise`. -/
structure Drives (w : ω) (promise : Option π) (s : State ω κ π ρ) (t : Outbox.State κ π ρ) :
    Prop where
  relay : s.relay = t
  stage : (s.worker w).stage = .polling
  relayPromise : (s.worker w).relayPromise = promise

theorem Drives.own {e : Outbox.Event κ π ρ} (h : Drives w promise s t) (hown : e.isOwn = true)
    (hs : Outbox.step bull t e = some t') :
    ∃ s', Runner.step bull s (.relay e) = some s' ∧ Drives w promise s' t' := by
  obtain ⟨hpromise, hstage, -⟩ := after_relayPromise e (s.worker w)
  refine ⟨⟨t', fun w => (s.worker w).after e⟩, ?_, rfl, hstage.trans h.stage,
    hpromise.trans h.relayPromise⟩
  simp only [Runner.step, hown, if_true, h.relay, hs, Option.map_some]

/-- What the relay does for the pass `p`, it does under the runner. -/
theorem Drives.reaches {p : π} (h : Drives w promise s t)
    (hp : (s₀.relay.phase p).Begun → s₀.Runs w p)
    (ht : Reaches (Outbox.step bull) (Of p) t t') :
    ∃ s', Reaches (Runner.step bull) (Alone s₀ w) s s' ∧ Drives w promise s' t' := by
  refine ht.lift (R := Drives w promise) ?_ h
  intro s t e t' h he hs
  obtain ⟨s', hs', h'⟩ := h.own he.1 hs
  refine ⟨s', .single ?_ hs', h'⟩
  intro q hq
  rw [he.2 q hq]
  exact hp

theorem Drives.begins {p : π} {now : ℤ} (h : Drives w none s t)
    (hs : Outbox.step bull t (.poll p now) = some t') :
    ∃ s', Reaches (Runner.step bull) (Alone s₀ w) s s' ∧ Drives w (some p) s' t' := by
  have hw : Alone s₀ w (.relayOnce w (some (p, now)) : Event ω κ π ρ) := rfl
  refine ⟨⟨t', Function.update s.worker w { s.worker w with relayPromise := some p }⟩,
    .single hw ?_, rfl, ?_, ?_⟩
  · simp only [Runner.step, h.stage, h.relayPromise, h.relay, hs, Option.map_some, State.set]
  · rw [worker_self]
    exact h.stage
  · rw [worker_self]

theorem Drives.settles {p : π} (h : Drives w (some p) s t)
    (hended : ¬ (t.phase p).Open) :
    ∃ s', Reaches (Runner.step bull) (Alone s₀ w) s s' ∧ Drives w none s' t := by
  have hw : Alone s₀ w (.settles w : Event ω κ π ρ) := rfl
  refine ⟨s.set w { s.worker w with relayPromise := none }, .single hw ?_, h.relay, ?_, ?_⟩
  · simp only [Runner.step, h.relayPromise, h.relay, hended, if_false]
  · rw [State.set, worker_self]
    exact h.stage
  · rw [State.set, worker_self]

/-- A pass that no add fails in, driven by the runner. -/
theorem Drives.pass {entries : List (WelcomeMailOutbox κ π)} (h : Drives w none s t)
    (hbegun : ∀ p, (s₀.relay.phase p).Begun → (t.phase p).Begun)
    (hpass : Pass bull (fun _ => False) entries t t') :
    ∃ s', Reaches (Runner.step bull) (Alone s₀ w) s s' ∧ Drives w none s' t' := by
  obtain ⟨p, now, now', es, -, hloop, hr⟩ := hpass
  obtain ⟨hidle, -, -, -, hes⟩ := run_start.mp hr
  have hnew : (s₀.relay.phase p).Begun → s₀.Runs w p := by
    intro hp
    have ht := hbegun p hp
    rw [hidle] at ht
    exact absurd ht not_false
  have hended : ¬ (t'.phase p).Open := hloop.ended (Function.update_self ..) hes
  obtain ⟨t₁, ht₁, hr⟩ := run_cons.mp hr
  obtain ⟨t₂, ht₂, hr⟩ := run_cons.mp hr
  obtain ⟨s₁, hs₁, h₁⟩ := h.reaches hnew (.single (of_none rfl rfl) ht₁)
  obtain ⟨s₂, hs₂, h₂⟩ := h₁.begins ht₂
  have hrest : Reaches (Outbox.step bull) (Of p) t₂ t' := by
    refine .of_run ?_ hr
    intro e he
    rcases List.mem_cons.mp he with rfl | he
    · exact of_none rfl rfl
    · rcases List.mem_cons.mp he with rfl | he
      · exact of_pass rfl rfl
      · exact hloop.of he
  obtain ⟨s₃, hs₃, h₃⟩ := h₂.reaches hnew hrest
  obtain ⟨s₄, hs₄, h₄⟩ := h₃.settles hended
  exact ⟨s₄, ((hs₁.trans hs₂).trans hs₃).trans hs₄, h₄⟩

theorem begun_reaches {E : Event ω κ π ρ → Prop} {p : π} (h : Reaches (Runner.step bull) E s s')
    (hp : (s.relay.phase p).Begun) : (s'.relay.phase p).Begun :=
  h.invariant (I := fun s => (s.relay.phase p).Begun) (fun _ _ _ h _ hs => begun_step hs h) hp

theorem Drives.passes {n : ℕ} (h : Drives w none s t)
    (hbegun : ∀ p, (s₀.relay.phase p).Begun → (t.phase p).Begun)
    (hpasses : Passes bull (fun _ => False) t n t') :
    ∃ s', Reaches (Runner.step bull) (Alone s₀ w) s s' ∧ Drives w none s' t' := by
  induction hpasses with
  | zero => exact ⟨s, .refl s, h⟩
  | @succ n t₁ t₂ entries hpasses hpass ih =>
      obtain ⟨s₁, hs₁, h₁⟩ := ih
      have hbegun₁ : ∀ p, (s₀.relay.phase p).Begun → (t₁.phase p).Begun := by
        intro p hp
        have hs := begun_reaches hs₁ (p := p) (h.relay.symm ▸ hbegun p hp)
        rwa [h₁.relay] at hs
      obtain ⟨s', hs', h'⟩ := h₁.pass hbegun₁ hpass
      exact ⟨s', hs₁.trans hs', h'⟩

/-- The worker ends the pass it has. -/
theorem exists_drives (bull : BullMq κ ρ) (hw : (s.worker w).stage = .polling) :
    ∃ s' t, Reaches (Runner.step bull) (Alone s w) s s' ∧ Drives w none s' t := by
  cases hp : (s.worker w).relayPromise with
  | none => exact ⟨s, s.relay, .refl s, rfl, hw, hp⟩
  | some p =>
      obtain ⟨t, ht, hended⟩ := exists_ended bull s.relay p
      have h : Drives w (some p) s s.relay := ⟨rfl, hw, hp⟩
      have hruns : (s.relay.phase p).Begun → s.Runs w p := fun _ => hp
      obtain ⟨s₁, hs₁, h₁⟩ := h.reaches hruns ht
      obtain ⟨s₂, hs₂, h₂⟩ := h₁.settles hended
      exact ⟨s₂, t, hs₁.trans hs₂, h₂⟩

theorem Alone.mails {s' : State ω κ π ρ} (h : Reaches (Runner.step bull) (Alone s₀ w) s s') :
    s'.relay.mails = s.relay.mails := by
  refine h.invariant (I := fun t => t.relay.mails = s.relay.mails) ?_ rfl
  intro t e t' ht he hs
  rw [mails_step hs ?_, ht]
  rintro id email username now rfl
  exact he

/-- **One worker is enough.**  From every state the workers have reached, one that polls can by its
own passes dispatch every row, with its job stored, while the others do nothing. -/
theorem recovers [Infinite π] {clock : ℤ} {es : List (Event ω κ π ρ)}
    (hr : run (Runner.step bull) (init ω π bull clock) es = some s)
    (hw : (s.worker w).stage = .polling) :
    ∃ s', Reaches (Runner.step bull) (Alone s w) s s' ∧ s'.relay.mails = s.relay.mails ∧
      ∀ r ∈ s'.relay.rows, r.dispatchedAt ≠ none ∧ ⟨r.id, r.job⟩ ∈ bull.jobs s'.relay.queue := by
  obtain ⟨s₁, t₁, hs₁, h₁⟩ := exists_drives bull hw
  obtain ⟨es₁, hr₁⟩ := hs₁.exists_run hr
  obtain ⟨es₂, ht₁⟩ := relay_run hr₁
  rw [h₁.relay] at ht₁
  -- no add fails, so no row is in the way of another
  have hwait := waiting_of_run ht₁
  have hblocked : ¬ Blocked (fun _ => False) t₁ := fun ⟨_, _, _, _, _, _, h, _⟩ => h
  obtain ⟨n, hdrains⟩ : Drains bull (fun _ => False) t₁ := drains_of_not_blocked hwait hblocked
  obtain ⟨t, hpasses⟩ := hwait.exists_passes bull (fun _ => False) n
  have hbegun : ∀ p, (s.relay.phase p).Begun → (t₁.phase p).Begun := by
    intro p hp
    exact h₁.relay ▸ begun_reaches hs₁ hp
  obtain ⟨s', hs', h'⟩ := h₁.passes hbegun hpasses
  have hreach := hs₁.trans hs'
  refine ⟨s', hreach, Alone.mails hreach, ?_⟩
  obtain ⟨es₃, hr₃⟩ := hreach.exists_run hr
  obtain ⟨es₄, hr₄⟩ := relay_run hr₃
  have hi := Outbox.inv_run hr₄
  intro r hrow
  have hd : r.dispatchedAt ≠ none := hdrains t hpasses r (h'.relay ▸ hrow) not_false
  exact ⟨hd, hi.job_of_holds hrow ((hi.row r hrow).dispatched hd)⟩

end Runs

end Runner

end MediumClone.Outbox
