import MediumClone.Outbox.Delivery

/-!
# Outbox — Runner

`WelcomeMailOutboxRelayRunner` (`src/jobs/welcome-mail-outbox-relay.ts`) and
`BullMqWelcomeMailQueue.close` (`src/jobs/welcome-mail-queue.ts`) in any number of worker processes
that share the table and the queue.  The relay goes its own steps; a runner begins its passes, and
learns when they have ended.

Nest calls `onApplicationBootstrap` once and `onApplicationShutdown` at most once, later.  A worker
that dies takes its pass with it.

* `Inv`: an open pass is the `relayPromise` of one worker, which polls or is shutting down.
* `Runner.relay_run`: what the workers do to the relay is a run of the relay, so it delivers.
-/

namespace MediumClone.Outbox
open Js Sys

/-- A pass has begun and not ended. -/
def Phase.Open {κ π : Type*} : Phase κ π → Prop
  | .idle | .resolved | .failed => False
  | .claiming _ | .adding _ _ | .marking _ _ | .releasing _ => True

/-- A pass has drawn its lease owner. -/
def Phase.Begun {κ π : Type*} : Phase κ π → Prop
  | .idle => False
  | _ => True

instance {κ π : Type*} : DecidablePred (Phase.Open (κ := κ) (π := π))
  | .idle | .resolved | .failed => .isFalse not_false
  | .claiming _ | .adding _ _ | .marking _ _ | .releasing _ => .isTrue trivial

/-- The relay's own steps: it neither begins a pass nor crashes one, nor registers. -/
def Event.isOwn {κ π ρ : Type*} : Event κ π ρ → Bool
  | .poll _ _ | .crashes _ | .register _ _ _ _ => false
  | _ => true

namespace Runner

inductive Stage where
  | created
  /-- The timer is set. -/
  | polling
  /-- The timer is cleared, and the runner awaits `relayPromise`. -/
  | stopping
  | closed
  | dead
  deriving DecidableEq

/-- What is read of a runner and of the queue it adds to. -/
structure Worker (π : Type*) where
  stage : Stage
  relayPromise : Option π
  hasAddedJob : Bool
  /-- The connection of the queue is quit. -/
  quit : Bool
  deriving DecidableEq

structure State (ω κ π ρ : Type*) where
  relay : Outbox.State κ π ρ
  worker : ω → Worker π

inductive Event (ω κ π ρ : Type*) where
  | relay (e : Outbox.Event κ π ρ)
  | registers (id : κ) (email username : Str) (now : ℤ)
  | onApplicationBootstrap (w : ω)
  /-- The timer calls `relayOnce`, with the lease owner and the time of the pass it begins. -/
  | relayOnce (w : ω) (pass : Option (π × ℤ))
  /-- The handlers of the promise run. -/
  | settles (w : ω)
  | onApplicationShutdown (w : ω)
  | closes (w : ω)
  | dies (w : ω)

def Worker.created (π : Type*) : Worker π where
  stage := .created
  relayPromise := none
  hasAddedJob := false
  quit := false

section Step

variable {ω κ π ρ : Type*} [DecidableEq ω] [DecidableEq κ] [DecidableEq π]

def init (ω π : Type*) (bull : BullMq κ ρ) (clock : ℤ) : State ω κ π ρ where
  relay := Outbox.init π bull clock
  worker := fun _ => .created π

def State.set (s : State ω κ π ρ) (w : ω) (worker : Worker π) : State ω κ π ρ :=
  { s with worker := Function.update s.worker w worker }

/-- The queue notes that an add was made through it. -/
def Worker.after (e : Outbox.Event κ π ρ) (worker : Worker π) : Worker π :=
  match e with
  | .sends p =>
    if worker.relayPromise = some p then { worker with hasAddedJob := true } else worker
  | _ => worker

/-- `BullMqWelcomeMailQueue.close`. -/
def Worker.close (worker : Worker π) : Worker π :=
  { worker with stage := .closed, quit := worker.hasAddedJob }

/-- The relay when the process of a pass is gone. -/
def crash (bull : BullMq κ ρ) (relay : Outbox.State κ π ρ) : Option π → Outbox.State κ π ρ
  | some p => (Outbox.step bull relay (.crashes p)).getD relay
  | none => relay

def step (bull : BullMq κ ρ) (s : State ω κ π ρ) : Event ω κ π ρ → Option (State ω κ π ρ)
  | .relay e =>
    if e.isOwn then
      (Outbox.step bull s.relay e).map fun relay =>
        { relay := relay, worker := fun w => (s.worker w).after e }
    else none
  | .registers id email username now =>
    (Outbox.step bull s.relay (.register id email username now)).map fun relay =>
      { s with relay := relay }
  | .onApplicationBootstrap w =>
    match (s.worker w).stage with
    | .created => some (s.set w { s.worker w with stage := .polling })
    | _ => none
  | .relayOnce w pass =>
    match (s.worker w).stage, (s.worker w).relayPromise, pass with
    | .polling, none, some (p, now) =>
      (Outbox.step bull s.relay (.poll p now)).map fun relay =>
        { s.set w { s.worker w with relayPromise := some p } with relay := relay }
    | .polling, some _, none => some s
    | _, _, _ => none
  | .settles w =>
    match (s.worker w).relayPromise with
    | some p =>
      if (s.relay.phase p).Open then none
      else some (s.set w { s.worker w with relayPromise := none })
    | none => none
  | .onApplicationShutdown w =>
    match (s.worker w).stage with
    | .created | .polling => some (s.set w { s.worker w with stage := .stopping })
    | _ => none
  | .closes w =>
    match (s.worker w).stage, (s.worker w).relayPromise with
    | .stopping, none => some (s.set w (s.worker w).close)
    | _, _ => none
  | .dies w =>
    some { s.set w { s.worker w with stage := .dead, relayPromise := none } with
      relay := crash bull s.relay (s.worker w).relayPromise }

end Step

/-! ### What a step does -/

section Transition

variable {ω κ π ρ : Type*} [DecidableEq ω] [DecidableEq κ] [DecidableEq π] {bull : BullMq κ ρ}
  {s s' : State ω κ π ρ} {e : Event ω κ π ρ}

/-- The steps, each with what the runner finds. -/
inductive Transition (bull : BullMq κ ρ) (s : State ω κ π ρ) :
    Event ω κ π ρ → State ω κ π ρ → Prop where
  | relays {e relay} (hown : e.isOwn = true) (h : Outbox.step bull s.relay e = some relay) :
      Transition bull s (.relay e) ⟨relay, fun w => (s.worker w).after e⟩
  | registers {id email username now relay}
      (h : Outbox.step bull s.relay (.register id email username now) = some relay) :
      Transition bull s (.registers id email username now) { s with relay := relay }
  | bootstraps {w} (hstage : (s.worker w).stage = .created) :
      Transition bull s (.onApplicationBootstrap w)
        (s.set w { s.worker w with stage := .polling })
  | begins {w p now relay} (hstage : (s.worker w).stage = .polling)
      (hp : (s.worker w).relayPromise = none)
      (h : Outbox.step bull s.relay (.poll p now) = some relay) :
      Transition bull s (.relayOnce w (some (p, now)))
        { s.set w { s.worker w with relayPromise := some p } with relay := relay }
  | skips {w p} (hp : (s.worker w).relayPromise = some p) :
      Transition bull s (.relayOnce w none) s
  | settles {w p} (hp : (s.worker w).relayPromise = some p) (hended : ¬ (s.relay.phase p).Open) :
      Transition bull s (.settles w) (s.set w { s.worker w with relayPromise := none })
  | shutsDown {w} (hstage : (s.worker w).stage = .created ∨ (s.worker w).stage = .polling) :
      Transition bull s (.onApplicationShutdown w)
        (s.set w { s.worker w with stage := .stopping })
  | closes {w} (hstage : (s.worker w).stage = .stopping)
      (hp : (s.worker w).relayPromise = none) :
      Transition bull s (.closes w) (s.set w (s.worker w).close)
  | dies {w} : Transition bull s (.dies w)
      { s.set w { s.worker w with stage := .dead, relayPromise := none } with
        relay := crash bull s.relay (s.worker w).relayPromise }

theorem step_transition (hs : step bull s e = some s') : Transition bull s e s' := by
  cases e with
  | relay e =>
      obtain ⟨hown, hs⟩ := Option.ite_none_right_eq_some.mp hs
      obtain ⟨relay, h, rfl⟩ := Option.map_eq_some_iff.mp hs
      exact .relays hown h
  | registers id email username now =>
      obtain ⟨relay, h, rfl⟩ := Option.map_eq_some_iff.mp hs
      exact .registers h
  | onApplicationBootstrap w =>
      simp only [step] at hs
      split at hs
      · rename_i hstage
        cases hs
        exact .bootstraps hstage
      · cases hs
  | relayOnce w pass =>
      simp only [step] at hs
      split at hs
      · rename_i hstage hp
        obtain ⟨relay, h, rfl⟩ := Option.map_eq_some_iff.mp hs
        exact .begins hstage hp h
      · rename_i hp
        cases hs
        exact .skips hp
      · cases hs
  | settles w =>
      simp only [step] at hs
      split at hs
      · rename_i p hp
        split at hs
        · cases hs
        · rename_i hended
          cases hs
          exact .settles hp hended
      · cases hs
  | onApplicationShutdown w =>
      simp only [step] at hs
      split at hs
      · rename_i hstage
        cases hs
        exact .shutsDown (.inl hstage)
      · rename_i hstage
        cases hs
        exact .shutsDown (.inr hstage)
      · cases hs
  | closes w =>
      simp only [step] at hs
      split at hs
      · rename_i hstage hp
        cases hs
        exact .closes hstage hp
      · cases hs
  | dies w =>
      cases hs
      exact .dies

end Transition

/-! ### What the relay does to its passes -/

section Phases

variable {κ π ρ : Type*} [DecidableEq κ] [DecidableEq π] {bull : BullMq κ ρ}
  {relay relay' : Outbox.State κ π ρ} {e : Outbox.Event κ π ρ} {p : π}

omit [DecidableEq κ] in
theorem phase_set (q : π) (phase : Phase κ π) :
    (relay.set p phase).phase q = if q = p then phase else relay.phase q :=
  Function.update_apply ..

omit [DecidableEq κ] [DecidableEq π] in
theorem begun_next (entries : List (ClaimedWelcomeMailOutbox κ π)) (answered : Bool) :
    (if answered then next entries else .failed : Phase κ π).Begun := by
  cases answered with
  | false => trivial
  | true => cases entries <;> trivial

omit [DecidableEq κ] in
/-- An open pass moves, and goes on to be begun. -/
theorem moves_set {phase phase' : Phase κ π} (hp : relay.phase p = phase) (hopen : phase.Open)
    (hbegun : phase'.Begun) (q : π) :
    (relay.set p phase').phase q = relay.phase q ∨
      (relay.phase q).Open ∧ ((relay.set p phase').phase q).Begun := by
  rw [phase_set]
  by_cases hq : q = p
  · rw [if_pos hq, hq, hp]
    exact .inr ⟨hopen, hbegun⟩
  · rw [if_neg hq]
    exact .inl rfl

theorem open_of_fails (h : Outbox.step bull relay (.databaseFails p) = some relay') :
    (relay.phase p).Open := by
  simp only [Outbox.step] at h
  cases hp : relay.phase p with
  | claiming | adding | marking | releasing => trivial
  | idle | resolved | failed => rw [hp] at h; cases h

/-- A step of the relay's own moves open passes alone. -/
theorem moves_own (h : Outbox.step bull relay e = some relay') (hown : e.isOwn = true) (q : π) :
    relay'.phase q = relay.phase q ∨ (relay.phase q).Open ∧ (relay'.phase q).Begun := by
  cases Outbox.step_transition h with
  | claims hp => exact moves_set hp trivial (begun_next ..) q
  | marks hp => exact moves_set hp trivial (begun_next ..) q
  | addResolves hp | addRejects hp | releases hp =>
      refine moves_set hp trivial ?_ q
      trivial
  | databaseFails =>
      refine moves_set rfl (open_of_fails h) ?_ q
      trivial
  | polls | crashes | registers => cases hown
  | ticks | sends | stores | works => exact .inl rfl

theorem phase_poll {now : ℤ} (h : Outbox.step bull relay (.poll p now) = some relay') :
    relay.phase p = .idle ∧ ∀ q, relay'.phase q =
      if q = p then .claiming (now + LEASE_DURATION_MS) else relay.phase q := by
  cases Outbox.step_transition h with
  | polls hp => exact ⟨hp, fun q => phase_set q _⟩

theorem phase_register {id : κ} {email username : Str} {now : ℤ}
    (h : Outbox.step bull relay (.register id email username now) = some relay') :
    relay'.phase = relay.phase := by
  cases Outbox.step_transition h with
  | registers => rfl

/-- The pass of a process that is gone is over. -/
theorem crash_some (bull : BullMq κ ρ) (relay : Outbox.State κ π ρ) (p : π) :
    crash bull relay (some p) = if (relay.phase p).Open then relay.set p .failed else relay := by
  rw [crash]
  cases hp : relay.phase p with
  | claiming | adding | marking | releasing => simp [Outbox.step, hp, Phase.Open]
  | idle | resolved | failed => simp [Outbox.step, hp, Phase.Open]

theorem crash_open {promise : Option π} {q : π}
    (h : ((crash bull relay promise).phase q).Open) :
    (relay.phase q).Open ∧ promise ≠ some q := by
  cases promise with
  | none => exact ⟨h, fun h => by cases h⟩
  | some p =>
      rw [crash_some] at h
      by_cases hp : (relay.phase p).Open
      · rw [if_pos hp, phase_set] at h
        by_cases hq : q = p
        · rw [if_pos hq] at h
          cases h
        · rw [if_neg hq] at h
          exact ⟨h, fun heq => hq (Option.some.inj heq).symm⟩
      · rw [if_neg hp] at h
        refine ⟨h, ?_⟩
        rintro ⟨⟩
        exact hp h

theorem crash_begun {promise : Option π} {q : π} (h : (relay.phase q).Begun) :
    ((crash bull relay promise).phase q).Begun := by
  cases promise with
  | none => exact h
  | some p =>
      rw [crash_some]
      split
      · rw [phase_set]
        split
        · trivial
        · exact h
      · exact h

/-- Only a registration brings mails. -/
theorem mails_own (h : Outbox.step bull relay e = some relay') (hown : e.isOwn = true) :
    relay'.mails = relay.mails := by
  cases Outbox.step_transition h with
  | claims => exact map_job_claim ..
  | marks => exact map_job_markDispatched ..
  | releases => exact map_job_release ..
  | registers => cases hown
  | _ => rfl

end Phases

/-! ### Whose passes are open -/

section Runs

variable {ω κ π ρ : Type*} {bull : BullMq κ ρ} {s s' : State ω κ π ρ} {e : Event ω κ π ρ}

/-- `w` awaits the pass `p`. -/
def State.Runs (s : State ω κ π ρ) (w : ω) (p : π) : Prop :=
  (s.worker w).relayPromise = some p

section Update

variable [DecidableEq ω] {w w' : ω} {worker : Worker π} {relay : Outbox.State κ π ρ} {p : π}

theorem worker_self :
    State.worker ⟨relay, Function.update s.worker w worker⟩ w = worker :=
  Function.update_self ..

theorem worker_of_ne (h : w' ≠ w) :
    State.worker ⟨relay, Function.update s.worker w worker⟩ w' = s.worker w' :=
  Function.update_of_ne h ..

theorem runs_self : State.Runs ⟨relay, Function.update s.worker w worker⟩ w p ↔
    worker.relayPromise = some p := by
  rw [State.Runs, worker_self]

theorem runs_of_ne (h : w' ≠ w) :
    State.Runs ⟨relay, Function.update s.worker w worker⟩ w' p ↔ s.Runs w' p := by
  rw [State.Runs, State.Runs, worker_of_ne h]

end Update

/-- The worker may have a pass. -/
def Stage.Live (stage : Stage) : Prop := stage = .polling ∨ stage = .stopping

structure Inv (s : State ω κ π ρ) : Prop where
  owned : ∀ p, (s.relay.phase p).Open → ∃ w, s.Runs w p
  alone : ∀ w w' p, s.Runs w p → s.Runs w' p → w = w'
  begun : ∀ w p, s.Runs w p → (s.relay.phase p).Begun
  live : ∀ w p, s.Runs w p → (s.worker w).stage.Live
  quit : ∀ w, (s.worker w).quit = true →
    (s.worker w).stage = .closed ∨ (s.worker w).stage = .dead

variable [DecidableEq ω] [DecidableEq κ] [DecidableEq π]

omit [DecidableEq κ] [DecidableEq π] [DecidableEq ω] in
theorem inv_init (clock : ℤ) : Inv (init ω π bull clock) where
  owned p h := by cases h
  alone w w' p h := by cases h
  begun w p h := by cases h
  live w p h := by cases h
  quit w h := by cases h

omit [DecidableEq κ] [DecidableEq π] in
/-- A worker changes its stage, or its pass is over. -/
theorem Inv.update (hi : Inv s) {w : ω} {worker : Worker π} {relay : Outbox.State κ π ρ}
    (hopen : ∀ p, (relay.phase p).Open →
      (s.relay.phase p).Open ∧ (s.Runs w p → worker.relayPromise = some p))
    (hruns : ∀ p, worker.relayPromise = some p → s.Runs w p ∧ worker.stage.Live)
    (hbegun : ∀ p, (s.relay.phase p).Begun → (relay.phase p).Begun)
    (hquit : worker.quit = true → worker.stage = .closed ∨ worker.stage = .dead) :
    Inv ⟨relay, Function.update s.worker w worker⟩ := by
  have hsub : ∀ w' p, State.Runs ⟨relay, Function.update s.worker w worker⟩ w' p →
      s.Runs w' p := by
    intro w' p h
    by_cases hw : w' = w
    · subst hw
      exact (hruns p (runs_self.mp h)).1
    · exact (runs_of_ne hw).mp h
  refine ⟨?_, ?_, ?_, ?_, ?_⟩
  · intro p hp
    obtain ⟨hp, hkeep⟩ := hopen p hp
    obtain ⟨w', hw'⟩ := hi.owned p hp
    refine ⟨w', ?_⟩
    by_cases hw : w' = w
    · subst hw
      exact runs_self.mpr (hkeep hw')
    · exact (runs_of_ne hw).mpr hw'
  · exact fun w₁ w₂ p h₁ h₂ => hi.alone w₁ w₂ p (hsub w₁ p h₁) (hsub w₂ p h₂)
  · exact fun w' p h => hbegun p (hi.begun w' p (hsub w' p h))
  · intro w' p h
    by_cases hw : w' = w
    · subst hw
      rw [worker_self]
      exact (hruns p (runs_self.mp h)).2
    · rw [worker_of_ne hw]
      exact hi.live w' p (hsub w' p h)
  · refine (Function.forall_update_iff s.worker fun _ worker => worker.quit = true →
      worker.stage = .closed ∨ worker.stage = .dead).mpr ⟨hquit, fun w' _ => hi.quit w'⟩

omit [DecidableEq ω] [DecidableEq κ] in
theorem after_relayPromise (e : Outbox.Event κ π ρ) (worker : Worker π) :
    (worker.after e).relayPromise = worker.relayPromise ∧
      (worker.after e).stage = worker.stage ∧ (worker.after e).quit = worker.quit := by
  cases e with
  | sends p =>
      rw [Worker.after]
      split <;> exact ⟨rfl, rfl, rfl⟩
  | _ => exact ⟨rfl, rfl, rfl⟩

omit [DecidableEq ω] in
theorem Inv.relays (hi : Inv s) {e : Outbox.Event κ π ρ} {relay : Outbox.State κ π ρ}
    (h : Outbox.step bull s.relay e = some relay) (hown : e.isOwn = true) :
    Inv ⟨relay, fun w => (s.worker w).after e⟩ := by
  have hruns : ∀ w p, State.Runs ⟨relay, fun w => (s.worker w).after e⟩ w p ↔ s.Runs w p := by
    intro w p
    rw [State.Runs, State.Runs, (after_relayPromise e (s.worker w)).1]
  refine ⟨?_, ?_, ?_, ?_, ?_⟩
  · intro p hp
    have hopen : (s.relay.phase p).Open := by
      rcases moves_own h hown p with heq | ⟨hopen, -⟩
      · exact heq ▸ hp
      · exact hopen
    obtain ⟨w, hw⟩ := hi.owned p hopen
    exact ⟨w, (hruns w p).mpr hw⟩
  · exact fun w w' p h₁ h₂ => hi.alone w w' p ((hruns w p).mp h₁) ((hruns w' p).mp h₂)
  · intro w p hw
    rcases moves_own h hown p with heq | ⟨-, hbegun⟩
    · exact heq.symm ▸ hi.begun w p ((hruns w p).mp hw)
    · exact hbegun
  · intro w p hw
    rw [(after_relayPromise e (s.worker w)).2.1]
    exact hi.live w p ((hruns w p).mp hw)
  · intro w
    rw [(after_relayPromise e (s.worker w)).2.1, (after_relayPromise e (s.worker w)).2.2]
    exact hi.quit w

theorem Inv.begins (hi : Inv s) {w : ω} {p : π} {now : ℤ} {relay : Outbox.State κ π ρ}
    (hstage : (s.worker w).stage = .polling) (hp : (s.worker w).relayPromise = none)
    (h : Outbox.step bull s.relay (.poll p now) = some relay) :
    Inv ⟨relay, Function.update s.worker w { s.worker w with relayPromise := some p }⟩ := by
  obtain ⟨hidle, hphase⟩ := phase_poll h
  -- nobody has a pass of this lease owner: it has not begun
  have hnone : ∀ w', ¬ s.Runs w' p := by
    intro w' hw'
    have hbegun := hi.begun w' p hw'
    rw [hidle] at hbegun
    exact hbegun
  have hruns : ∀ w' q, State.Runs
      ⟨relay, Function.update s.worker w { s.worker w with relayPromise := some p }⟩ w' q →
      w' = w ∧ q = p ∨ w' ≠ w ∧ q ≠ p ∧ s.Runs w' q := by
    intro w' q hq
    by_cases hw : w' = w
    · subst hw
      exact .inl ⟨rfl, (Option.some.inj (runs_self.mp hq)).symm⟩
    · have hold := (runs_of_ne hw).mp hq
      refine .inr ⟨hw, ?_, hold⟩
      rintro rfl
      exact hnone w' hold
  refine ⟨?_, ?_, ?_, ?_, ?_⟩
  · intro q hq
    rw [hphase] at hq
    by_cases hqp : q = p
    · exact ⟨w, runs_self.mpr (congrArg some hqp.symm)⟩
    · rw [if_neg hqp] at hq
      obtain ⟨w', hw'⟩ := hi.owned q hq
      have hne : w' ≠ w := by
        rintro rfl
        cases hp.symm.trans hw'
      exact ⟨w', (runs_of_ne hne).mpr hw'⟩
  · intro w₁ w₂ q h₁ h₂
    rcases hruns w₁ q h₁ with ⟨rfl, rfl⟩ | ⟨-, hne₁, hq₁⟩
    · rcases hruns w₂ q h₂ with ⟨rfl, -⟩ | ⟨-, hne₂, -⟩
      · rfl
      · exact absurd rfl hne₂
    · rcases hruns w₂ q h₂ with ⟨-, rfl⟩ | ⟨-, -, hq₂⟩
      · exact absurd rfl hne₁
      · exact hi.alone w₁ w₂ q hq₁ hq₂
  · intro w' q hq
    rw [hphase]
    rcases hruns w' q hq with ⟨-, rfl⟩ | ⟨-, hne, hq⟩
    · rw [if_pos rfl]
      trivial
    · rw [if_neg hne]
      exact hi.begun w' q hq
  · intro w' q hq
    rcases hruns w' q hq with ⟨rfl, -⟩ | ⟨hne, -, hq⟩
    · rw [worker_self]
      exact .inl hstage
    · rw [worker_of_ne hne]
      exact hi.live w' q hq
  · exact (Function.forall_update_iff s.worker fun _ worker => worker.quit = true →
      worker.stage = .closed ∨ worker.stage = .dead).mpr ⟨hi.quit w, fun w' _ => hi.quit w'⟩

theorem Inv.step (hi : Inv s) (hs : Runner.step bull s e = some s') : Inv s' := by
  cases step_transition hs with
  | relays hown h => exact hi.relays h hown
  | registers h =>
      have hphase := phase_register h
      exact ⟨fun p hp => hi.owned p (hphase ▸ hp), hi.alone,
        fun w p hw => hphase.symm ▸ hi.begun w p hw, hi.live, hi.quit⟩
  | @bootstraps w hstage =>
      refine hi.update (fun p hp => ⟨hp, fun h => h⟩) (fun p hp => ⟨hp, .inl rfl⟩) (fun _ h => h) ?_
      intro hquit
      rcases hi.quit w hquit with h | h <;> cases hstage.symm.trans h
  | begins hstage hp h => exact hi.begins hstage hp h
  | skips => exact hi
  | @settles w p hp hended =>
      refine hi.update ?_ (fun _ h => by cases h) (fun _ h => h) (hi.quit w)
      intro q hq
      refine ⟨hq, fun h => ?_⟩
      cases hp.symm.trans h
      exact absurd hq hended
  | @shutsDown w hstage =>
      refine hi.update (fun p hp => ⟨hp, fun h => h⟩) (fun p hp => ⟨hp, .inr rfl⟩) (fun _ h => h) ?_
      intro hquit
      rcases hi.quit w hquit with h | h <;> rcases hstage with h' | h' <;> cases h'.symm.trans h
  | @closes w hstage hp =>
      refine hi.update (fun p hopen => ⟨hopen, fun h => h⟩) ?_ (fun _ h => h) fun _ => .inl rfl
      intro p h
      cases hp.symm.trans h
  | @dies w =>
      refine hi.update ?_ (fun _ h => by cases h) ?_ fun _ => .inr rfl
      · intro p hp
        obtain ⟨hopen, hne⟩ := crash_open hp
        exact ⟨hopen, fun h => absurd h hne⟩
      · exact fun p => crash_begun

theorem inv_run {clock : ℤ} {es : List (Event ω κ π ρ)}
    (hr : run (step bull) (init ω π bull clock) es = some s) : Inv s :=
  run_invariant' (fun _ _ _ hi hs => hi.step hs) (inv_init clock) hr

/-! ### What has been begun -/

/-- `w` has begun the pass `p`. -/
def Began (es : List (Event ω κ π ρ)) (w : ω) (p : π) : Prop :=
  ∃ now, .relayOnce w (some (p, now)) ∈ es

/-- The stages of a worker, in order. -/
def Stage.rank : Stage → ℕ
  | .created => 0
  | .polling => 1
  | .stopping => 2
  | .closed => 3
  | .dead => 4

theorem Stage.rank_le (stage : Stage) : stage.rank ≤ Stage.dead.rank := by
  cases stage <;> decide

omit [DecidableEq κ] [DecidableEq π] in
theorem rank_update {w w' : ω} {worker : Worker π} {relay : Outbox.State κ π ρ}
    (h : (s.worker w).stage.rank ≤ worker.stage.rank) :
    (s.worker w').stage.rank ≤
      (State.worker ⟨relay, Function.update s.worker w worker⟩ w').stage.rank := by
  by_cases hw : w' = w
  · subst hw
    rwa [worker_self]
  · rw [worker_of_ne hw]

/-- A worker does not go back to an earlier stage. -/
theorem step_rank (hs : Runner.step bull s e = some s') (w : ω) :
    (s.worker w).stage.rank ≤ (s'.worker w).stage.rank := by
  cases step_transition hs with
  | relays => rw [(after_relayPromise _ (s.worker w)).2.1]
  | registers | skips => exact le_rfl
  | bootstraps hstage => exact rank_update (hstage ▸ Nat.zero_le _)
  | begins | settles => exact rank_update le_rfl
  | shutsDown hstage =>
      refine rank_update ?_
      rcases hstage with h | h
      · exact h ▸ (by decide : Stage.created.rank ≤ Stage.stopping.rank)
      · exact h ▸ (by decide : Stage.polling.rank ≤ Stage.stopping.rank)
  | closes hstage =>
      refine rank_update ?_
      exact hstage ▸ (by decide : Stage.stopping.rank ≤ Stage.closed.rank)
  | dies => exact rank_update (Stage.rank_le _)

omit [DecidableEq κ] [DecidableEq π] in
theorem runs_update {w w' : ω} {worker : Worker π} {relay : Outbox.State κ π ρ} {p : π}
    (h : State.Runs ⟨relay, Function.update s.worker w worker⟩ w' p)
    (hruns : worker.relayPromise = some p → s.Runs w p) : s.Runs w' p := by
  by_cases hw : w' = w
  · subst hw
    exact hruns (runs_self.mp h)
  · exact (runs_of_ne hw).mp h

/-- A pass that a worker has is one it had, or one it begins. -/
theorem runs_step {w : ω} {p : π} (hs : Runner.step bull s e = some s') (h : s'.Runs w p) :
    s.Runs w p ∨ ∃ now, e = .relayOnce w (some (p, now)) := by
  cases step_transition hs with
  | relays => exact .inl ((after_relayPromise _ (s.worker w)).1.symm.trans h)
  | registers | skips => exact .inl h
  | bootstraps | shutsDown | closes => exact .inl (runs_update h fun h => h)
  | settles | dies => exact .inl (runs_update h fun h => by cases h)
  | @begins w' q now =>
      by_cases hw : w = w'
      · subst hw
        cases runs_self.mp h
        exact .inr ⟨now, rfl⟩
      · exact .inl ((runs_of_ne hw).mp h)

theorem begun_step {p : π} (hs : Runner.step bull s e = some s')
    (h : (s.relay.phase p).Begun) : (s'.relay.phase p).Begun := by
  cases step_transition hs with
  | relays hown hr =>
      rcases moves_own hr hown p with heq | ⟨-, hbegun⟩
      · exact heq.symm ▸ h
      · exact hbegun
  | registers hr => exact (phase_register hr).symm ▸ h
  | begins _ _ hr =>
      rw [(phase_poll hr).2]
      split
      · trivial
      · exact h
  | bootstraps | skips | settles | shutsDown | closes => exact h
  | dies => exact crash_begun h

/-- The passes that were begun: each by one worker, which alone can have it. -/
structure History (es : List (Event ω κ π ρ)) (s : State ω κ π ρ) : Prop where
  inv : Inv s
  runs : ∀ w p, s.Runs w p → Began es w p
  begun : ∀ w p, Began es w p → (s.relay.phase p).Begun
  once : ∀ w w' p, Began es w p → Began es w' p → w = w'

omit [DecidableEq ω] [DecidableEq κ] [DecidableEq π] in
theorem began_append {es : List (Event ω κ π ρ)} {w : ω} {p : π} :
    Began (es ++ [e]) w p ↔ Began es w p ∨ ∃ now, e = .relayOnce w (some (p, now)) := by
  simp only [Began, List.mem_append, List.mem_singleton, exists_or, eq_comm]

theorem History.step {es : List (Event ω κ π ρ)} (h : History es s)
    (hs : Runner.step bull s e = some s') : History (es ++ [e]) s' := by
  -- a pass that begins was not begun before
  have hnew : ∀ w w' p now, e = .relayOnce w (some (p, now)) → ¬ Began es w' p := by
    rintro w w' p now rfl hold
    cases step_transition hs with
    | begins _ _ hr =>
        have hbegun := h.begun w' p hold
        rw [(phase_poll hr).1] at hbegun
        exact hbegun
  refine ⟨h.inv.step hs, ?_, ?_, ?_⟩
  · intro w p hw
    exact began_append.mpr ((runs_step hs hw).imp_left (h.runs w p))
  · intro w p hw
    rcases began_append.mp hw with hw | ⟨now, rfl⟩
    · exact begun_step hs (h.begun w p hw)
    · cases step_transition hs with
      | begins _ _ hr =>
          rw [(phase_poll hr).2, if_pos rfl]
          trivial
  · intro w w' p hw hw'
    rcases began_append.mp hw with hw | ⟨now, he⟩
    · rcases began_append.mp hw' with hw' | ⟨now', he'⟩
      · exact h.once w w' p hw hw'
      · exact absurd hw (hnew w' w p now' he')
    · rcases began_append.mp hw' with hw' | ⟨now', he'⟩
      · exact absurd hw' (hnew w w' p now he)
      · cases he.symm.trans he'
        rfl

theorem history_run {clock : ℤ} {es : List (Event ω κ π ρ)}
    (hr : run (Runner.step bull) (init ω π bull clock) es = some s) : History es s := by
  refine run_history (fun _ _ _ _ h hs => h.step hs) ?_ hr
  refine ⟨inv_init clock, ?_, ?_, ?_⟩
  · intro w p h
    cases h
  · intro w p h
    cases h.choose_spec
  · intro w w' p h
    cases h.choose_spec

omit [DecidableEq ω] [DecidableEq κ] [DecidableEq π] in
/-- An open pass is still its worker's. -/
theorem History.runs_of_open {es : List (Event ω κ π ρ)} (h : History es s) {w : ω} {p : π}
    (hb : Began es w p) (hp : (s.relay.phase p).Open) : s.Runs w p := by
  obtain ⟨w', hw'⟩ := h.inv.owned p hp
  rwa [h.once w w' p hb (h.runs w' p hw')]

/-! ### The relay under its runners -/

theorem relay_step (hs : Runner.step bull s e = some s') :
    Reaches (Outbox.step bull) (fun _ => True) s.relay s'.relay := by
  cases step_transition hs with
  | relays hown h => exact .single trivial h
  | registers h => exact .single trivial h
  | begins hstage hp h => exact .single trivial h
  | bootstraps | skips | settles | shutsDown | closes => exact .refl _
  | @dies w =>
      cases hw : (s.worker w).relayPromise with
      | none => exact .refl _
      | some p =>
          cases h : Outbox.step bull s.relay (.crashes p) with
          | none => simpa only [crash, h] using .refl _
          | some relay => simpa only [crash, h] using .single trivial h

/-- A runner step that registers nothing brings no mails. -/
theorem mails_step (hs : Runner.step bull s e = some s')
    (he : ∀ id email username now, e ≠ .registers id email username now) :
    s'.relay.mails = s.relay.mails := by
  cases step_transition hs with
  | relays hown h => exact mails_own h hown
  | @registers id email username now => exact absurd rfl (he id email username now)
  | begins _ _ h =>
      cases Outbox.step_transition h with
      | polls => rfl
  | bootstraps | skips | settles | shutsDown | closes => rfl
  | @dies w =>
      cases hw : (s.worker w).relayPromise with
      | none => rfl
      | some p =>
          rw [crash_some]
          split <;> rfl

theorem mails_registers {id : κ} {email username : Str} {now : ℤ}
    (hs : Runner.step bull s (.registers id email username now) = some s') :
    s'.relay.mails = s.relay.mails ++ [⟨email, id, username⟩] := by
  cases step_transition hs with
  | registers h =>
      cases Outbox.step_transition h with
      | registers => exact List.map_append

/-- What the workers do to the relay is a run of the relay. -/
theorem relay_run {clock : ℤ} {es : List (Event ω κ π ρ)}
    (hr : run (step bull) (init ω π bull clock) es = some s) :
    ∃ es', run (Outbox.step bull) (Outbox.init π bull clock) es' = some s.relay := by
  obtain ⟨es', -, h⟩ := run_projects (f := State.relay) (fun _ _ _ => relay_step) hr
  exact ⟨es', h⟩

/-! ### Shutting down -/

theorem rank_run {es : List (Event ω κ π ρ)} (hr : run (Runner.step bull) s es = some s') (w : ω) :
    (s.worker w).stage.rank ≤ (s'.worker w).stage.rank := by
  refine run_invariant' (I := fun t => (s.worker w).stage.rank ≤ (t.worker w).stage.rank)
    ?_ le_rfl hr
  exact fun _ _ _ h hs => h.trans (step_rank hs w)

/-- A worker that does not poll any more begins no pass. -/
theorem not_began_of_rank {es : List (Event ω κ π ρ)} {w : ω}
    (hrank : Stage.stopping.rank ≤ (s.worker w).stage.rank)
    (hr : run (Runner.step bull) s es = some s') (p : π) : ¬ Began es w p := by
  rintro ⟨now, hmem⟩
  obtain ⟨es₁, es₂, rfl⟩ := List.append_of_mem hmem
  obtain ⟨s₁, hr₁, hr⟩ := run_append.mp hr
  obtain ⟨s₂, hs, -⟩ := run_cons.mp hr
  cases step_transition hs with
  | begins hstage =>
      have hle := hrank.trans (rank_run hr₁ w)
      rw [hstage] at hle
      exact absurd hle (by decide)

/-- **A worker has one pass at a time, and none once it has closed.**  In every run of any number
of workers an open pass was begun by exactly one of them.  No worker has two open passes; one that
has a pass polls or is shutting down, with its connection up.  From its shutdown on a worker begins
none, and when it closes its queue its passes have ended. -/
theorem workers_passes {clock : ℤ} {es : List (Event ω κ π ρ)}
    (hr : run (Runner.step bull) (init ω π bull clock) es = some s) :
    (∀ p, (s.relay.phase p).Open → ∃! w, Began es w p) ∧
    (∀ w p p', Began es w p → Began es w p' → (s.relay.phase p).Open → (s.relay.phase p').Open →
      p = p') ∧
    (∀ w p, Began es w p → (s.relay.phase p).Open →
      (s.worker w).stage.Live ∧ (s.worker w).quit = false) ∧
    (∀ es₁ w es₂, es = es₁ ++ .onApplicationShutdown w :: es₂ → ∀ p, Began es w p →
      Began es₁ w p) ∧
    ∀ es₁ w es₂, es = es₁ ++ .closes w :: es₂ → ∀ p, Began es w p →
      ¬ (s.relay.phase p).Open := by
  have h := history_run hr
  have hlive : ∀ w p, Began es w p → (s.relay.phase p).Open →
      (s.worker w).stage.Live ∧ (s.worker w).quit = false := by
    intro w p hb hp
    have hstage := h.inv.live w p (h.runs_of_open hb hp)
    refine ⟨hstage, Bool.eq_false_iff.mpr fun hquit => ?_⟩
    rcases hstage with hl | hl <;> rcases h.inv.quit w hquit with hq | hq <;> cases hl.symm.trans hq
  refine ⟨?_, ?_, hlive, ?_, ?_⟩
  · intro p hp
    obtain ⟨w, hw⟩ := h.inv.owned p hp
    exact ⟨w, h.runs w p hw, fun w' hw' => h.once w' w p hw' (h.runs w p hw)⟩
  · intro w p p' hb hb' hp hp'
    exact Option.some.inj ((h.runs_of_open hb hp).symm.trans (h.runs_of_open hb' hp'))
  · rintro es₁ w es₂ rfl p ⟨now, hmem⟩
    obtain ⟨s₁, -, hr⟩ := run_append.mp hr
    obtain ⟨s₂, hs, hr₂⟩ := run_cons.mp hr
    have hrank : Stage.stopping.rank ≤ (s₂.worker w).stage.rank := by
      cases step_transition hs with
      | shutsDown => rw [State.set, worker_self]
    rcases List.mem_append.mp hmem with hmem | hmem
    · exact ⟨now, hmem⟩
    · rcases List.mem_cons.mp hmem with heq | hmem
      · cases heq
      · exact absurd ⟨now, hmem⟩ (not_began_of_rank hrank hr₂ p)
  · rintro es₁ w es₂ rfl p hb hp
    obtain ⟨s₁, -, hr⟩ := run_append.mp hr
    obtain ⟨s₂, hs, hr₂⟩ := run_cons.mp hr
    have hrank : Stage.closed.rank ≤ (s₂.worker w).stage.rank := by
      cases step_transition hs with
      | closes => rw [State.set, worker_self, Worker.close]
    have hle := hrank.trans (rank_run hr₂ w)
    rcases (hlive w p hb hp).1 with hstage | hstage
    · rw [hstage] at hle
      exact absurd hle (by decide)
    · rw [hstage] at hle
      exact absurd hle (by decide)

end Runs

/-! ### A shutdown during a pass -/

/-- The timer calls twice while a pass is on; the worker is told to shut down, and another goes on
polling. -/
def shutdown : List (Event Bool Unit ℕ (List (Job Unit))) :=
  [.registers () [] [] 0, .onApplicationBootstrap true, .onApplicationBootstrap false,
    .relayOnce true (some (0, 0)), .relayOnce true none,
    .relay (.claims 0 0 [] [.registered () [] [] 0] true), .onApplicationShutdown true,
    .relay (.sends 0), .relay (.stores ⟨[], (), []⟩), .relay (.addResolves 0),
    .relay (.marks 0 0 true), .settles true, .closes true, .relayOnce false (some (1, 0))]

theorem workers_passes_shutdown :
    ∃ s, run (step (listQueue Unit)) (init Bool ℕ (listQueue Unit) 0) shutdown = some s ∧
      (s.relay.phase 1).Open ∧ (∃! w, Began shutdown w 1) ∧ (s.worker true).quit = true ∧
      ¬ (s.relay.phase 0).Open := by
  obtain ⟨s, hs⟩ : ∃ s, run (step (listQueue Unit)) (init Bool ℕ (listQueue Unit) 0) shutdown
    = some s := ⟨_, rfl⟩
  obtain ⟨hone, -, -, -, hclosed⟩ := workers_passes hs
  have hopen : (s.relay.phase 1).Open := by
    cases hs
    trivial
  refine ⟨s, hs, hopen, hone 1 hopen, ?_, ?_⟩
  · cases hs
    rfl
  · refine hclosed (shutdown.take 12) true (shutdown.drop 13) rfl 0 ⟨0, ?_⟩
    simp [shutdown]

end Runner

end MediumClone.Outbox
