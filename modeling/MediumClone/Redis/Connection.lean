import MediumClone.Support.JsText
import MediumClone.Support.Run

/-!
# Redis — Connection

`src/auth/auth-login-rate-limiter.ts` and `src/auth/redis-token-deny-list-client.ts` each own one
lazily connected Redis client and share one idiom: `connect()` keeps the promise of the first
connection attempt in `connectionReady`, awaits it, and forgets it when it was rejected.  Both
wrappers are the machine of this file; they differ in the command a call sends (`Method`).

The client's own states are those of ioredis (`Status`).  Its `connect()` rejects at once while
the status is `connecting`, `connect` or `ready`.  A lost connection, and an attempt that failed,
leave it `reconnecting`, from where it tries again by itself.  `close`, which it leaves within
one tick, and `end`, which only `quit` reaches, are left out with `onModuleDestroy`.

Promises are named by the call that made them.  A settled promise resumes its callers before the
client sees another network event, so a network event needs `Quiet`; other calls may come in
between.

**A ready client is usable** (`Recovers`) as long as `connectionReady` holds a promise that was
fulfilled.  A client that becomes ready by its own retry after a rejection emptied the field is
not: the next call connects again, and `connect()` rejects because the client is ready.  So a run
recovers throughout exactly when, each time the client becomes ready, the field holds the promise
of that very attempt or one already fulfilled (`recovers_iff`).
-/

namespace MediumClone.Redis
open Js Sys

/-! ### The commands -/

/-- Lower-casing and SHA-256 in hexadecimal. -/
structure Hashing where
  toLowerCase : Str → Str
  sha256 : Str → Str

inductive Command where
  | eval (script : Str) (keys args : List Str)
  | get (key : Str)
  | set (key value mode : Str) (ttlSeconds : Int)
  deriving DecidableEq

/-- The methods that send a command: one of the rate limiter, two of the deny-list client. -/
inductive Method where
  | consume (email : Str) (ipAddress : Option Str)
  | get (key : Str)
  | set (key value : Str) (ttlSeconds : Int)
  deriving DecidableEq

def AUTH_LOGIN_WINDOW_MS : Nat := 60000

def AUTH_LOGIN_INCREMENT_SCRIPT : Str :=
  ("\n  local counts = \x7b\x7d\n  for index, key in ipairs(KEYS) do\n" ++
    "    local count = redis.call('INCR', key)\n" ++
    "    if count == 1 then redis.call('PEXPIRE', key, ARGV[1]) end\n" ++
    "    counts[index] = count\n  end\n  return counts\n").toList

def createLoginKey (h : Hashing) (type value : Str) : Str :=
  "auth:login:".toList ++ type ++ ":".toList ++ h.sha256 value

def Method.command (h : Hashing) : Method → Command
  | .consume email ipAddress =>
    .eval AUTH_LOGIN_INCREMENT_SCRIPT
      [createLoginKey h "email".toList (h.toLowerCase email),
        createLoginKey h "ip".toList (ipAddress.getD "unknown".toList)]
      [(toString AUTH_LOGIN_WINDOW_MS).toList]
  | .get key => .get key
  | .set key value ttlSeconds => .set key value "EX".toList ttlSeconds

/-! ### The client and the wrapper -/

inductive Status where
  | wait | connecting | connect | ready | reconnecting
  deriving DecidableEq

/-- `connect()` is rejected in these. -/
def Status.busy : Status → Bool
  | .connecting | .connect | .ready => true
  | .wait | .reconnecting => false

inductive Outcome where
  | issues (command : Command)
  | connectError
  deriving DecidableEq

structure Waiting where
  call : Nat
  promise : Nat
  method : Method
  deriving DecidableEq

structure State where
  status : Status
  connectionReady : Option Nat
  /-- How a promise ended, `none` while it is pending. -/
  settled : Nat → Option Bool
  /-- The promise the client's present attempt settles; its own retries have none. -/
  attempt : Option Nat
  calls : Nat
  waiting : List Waiting
  outcomes : List (Nat × Outcome)

def init : State where
  status := .wait
  connectionReady := none
  settled := fun _ => none
  attempt := none
  calls := 0
  waiting := []
  outcomes := []

inductive Event where
  | call (method : Method)
  | resume (call : Nat)
  | connected
  | becomesReady
  | fails
  | drops
  | retries
  deriving DecidableEq

/-- The client's `connect()`; its promise is named by the present call. -/
def State.clientConnect (s : State) : State :=
  if s.status.busy then { s with settled := Function.update s.settled s.calls (some false) }
  else { s with status := .connecting, attempt := some s.calls }

/-- `this.connectionReady ??= this.connection.connect()`, with the promise then awaited. -/
def State.remember (s : State) : State × Nat :=
  match s.connectionReady with
  | some p => (s, p)
  | none => ({ s.clientConnect with connectionReady := some s.calls }, s.calls)

/-- A call, up to its first `await`. -/
def State.call (s : State) (m : Method) : State :=
  let (s', p) := s.remember
  { s' with waiting := ⟨s.calls, p, m⟩ :: s.waiting, calls := s.calls + 1 }

/-- The client's present attempt ends. -/
def State.settle (s : State) (status : Status) (fulfilled : Bool) : State :=
  { s with
    status := status
    attempt := none
    settled := match s.attempt with
      | some p => Function.update s.settled p (some fulfilled)
      | none => s.settled }

/-- No caller has a settled promise left to resume from. -/
def State.Quiet (s : State) : Prop := ∀ w ∈ s.waiting, s.settled w.promise = none

instance (s : State) : Decidable s.Quiet :=
  inferInstanceAs (Decidable (∀ w ∈ s.waiting, s.settled w.promise = none))

/-- The wrapper's `connect()` after its `await`, and the command when there was no error. -/
def State.resume (s : State) (h : Hashing) (w : Waiting) : Option State :=
  (s.settled w.promise).map fun fulfilled =>
    if fulfilled then
      { s with
        waiting := s.waiting.erase w
        outcomes := (w.call, .issues (w.method.command h)) :: s.outcomes }
    else
      { s with
        connectionReady := none
        waiting := s.waiting.erase w
        outcomes := (w.call, .connectError) :: s.outcomes }

def step (h : Hashing) (s : State) : Event → Option State
  | .call m => some (s.call m)
  | .resume c => (s.waiting.find? fun w => w.call = c).bind (s.resume h)
  | .connected =>
    if s.status = .connecting ∧ s.Quiet then some { s with status := .connect } else none
  | .becomesReady =>
    if s.status = .connect ∧ s.Quiet then some (s.settle .ready true) else none
  | .fails =>
    if (s.status = .connecting ∨ s.status = .connect) ∧ s.Quiet then
      some (s.settle .reconnecting false)
    else none
  | .drops =>
    if s.status = .ready ∧ s.Quiet then some { s with status := .reconnecting } else none
  | .retries =>
    if s.status = .reconnecting ∧ s.Quiet then some { s with status := .connecting } else none

/-- While the client is ready, the next call sends its command. -/
def Recovers (h : Hashing) (s : State) : Prop :=
  s.status = .ready → ∀ m, ∃ s₁ s₂,
    step h s (.call m) = some s₁ ∧ step h s₁ (.resume s.calls) = some s₂ ∧
      s₂.outcomes = (s.calls, .issues (m.command h)) :: s.outcomes

/-- The client becomes ready only with that attempt's promise, or a fulfilled one, remembered. -/
def ReadyRemembered (s : State) (e : Event) : Prop :=
  e = .becomesReady →
    ∃ p, s.connectionReady = some p ∧ (s.attempt = some p ∨ s.settled p = some true)

/-! ### One call on a ready client -/

section Ready

variable {h : Hashing} {s s' : State}

theorem State.call_of_remembered {p : Nat} (hp : s.connectionReady = some p) (m : Method) :
    s.call m = { s with waiting := ⟨s.calls, p, m⟩ :: s.waiting, calls := s.calls + 1 } := by
  simp only [State.call, State.remember, hp]

/-- A call on a busy client that remembers nothing is rejected. -/
theorem State.call_of_busy (hm : s.connectionReady = none) (hb : s.status.busy = true)
    (m : Method) :
    s.call m =
      { s with
        connectionReady := some s.calls
        settled := Function.update s.settled s.calls (some false)
        waiting := ⟨s.calls, s.calls, m⟩ :: s.waiting
        calls := s.calls + 1 } := by
  simp only [State.call, State.remember, hm, State.clientConnect, hb, if_true]

/-- The call made last resumes from the promise it waits for. -/
theorem step_resume_last {c p : Nat} {m : Method} {ws : List Waiting}
    (hw : s.waiting = ⟨c, p, m⟩ :: ws) : step h s (.resume c) = s.resume h ⟨c, p, m⟩ := by
  simp only [step, hw, List.find?_cons, decide_true, Option.bind_some]

theorem State.resume_fulfilled {w : Waiting} (hw : s.settled w.promise = some true) :
    s.resume h w = some { s with
      waiting := s.waiting.erase w
      outcomes := (w.call, .issues (w.method.command h)) :: s.outcomes } := by
  simp only [State.resume, hw, Option.map_some, if_true]

theorem State.resume_rejected {w : Waiting} (hw : s.settled w.promise = some false) :
    s.resume h w = some { s with
      connectionReady := none
      waiting := s.waiting.erase w
      outcomes := (w.call, .connectError) :: s.outcomes } := by
  simp only [State.resume, hw, Option.map_some, Bool.false_eq_true, if_false]

/-- A call that sends its command waited for a fulfilled promise. -/
theorem State.fulfilled_of_issues {w : Waiting} (hs : s.resume h w = some s') {o : Outcome}
    (ho : s'.outcomes = (w.call, o) :: s.outcomes) (hne : o ≠ .connectError) :
    s.settled w.promise = some true := by
  rcases hp : s.settled w.promise with _ | _ | _
  · simp [State.resume, hp] at hs
  · rw [State.resume_rejected hp] at hs
    obtain rfl := Option.some.inj hs
    simp only [List.cons.injEq, Prod.mk.injEq, true_and, and_true] at ho
    exact absurd ho.symm hne
  · rfl

/-- **A ready client is usable** exactly when a fulfilled promise is remembered. -/
theorem recovers_ready_iff (hr : s.status = .ready) :
    Recovers h s ↔ ∃ p, s.connectionReady = some p ∧ s.settled p = some true := by
  constructor
  · intro hrec
    obtain ⟨s₁, s₂, h₁, h₂, ho⟩ := hrec hr (.get [])
    obtain rfl : s.call (.get []) = s₁ := Option.some.inj h₁
    cases hm : s.connectionReady with
    | none =>
        -- the client's own `connect()` rejects, so the promise waited for is a rejected one
        rw [State.call_of_busy hm (by rw [hr]; rfl), step_resume_last rfl] at h₂
        have := State.fulfilled_of_issues h₂ ho (by simp)
        simp at this
    | some p =>
        rw [State.call_of_remembered hm, step_resume_last rfl] at h₂
        exact ⟨p, rfl, State.fulfilled_of_issues h₂ ho (by simp)⟩
  · rintro ⟨p, hm, hp⟩ - m
    refine ⟨s.call m, { s with
      waiting := s.waiting
      calls := s.calls + 1
      outcomes := (s.calls, .issues (m.command h)) :: s.outcomes }, rfl, ?_, rfl⟩
    rw [State.call_of_remembered hm, step_resume_last rfl, State.resume_fulfilled hp]
    simp only [List.erase_cons_head]

end Ready

/-! ### Runs -/

section Runs

variable {h : Hashing} {s s' : State}

/-- A promise that a caller waits for or a later call will find. -/
def State.InUse (s : State) (p : Nat) : Prop :=
  s.connectionReady = some p ∨ ∃ w ∈ s.waiting, w.promise = p

/-- A promise in use is settled or is that of the present attempt, and an attempt of the wrapper
is under way only while the client is connecting. -/
structure Inv (s : State) : Prop where
  pending : ∀ p, s.InUse p → s.settled p = none → s.attempt = some p
  idle : s.status ≠ .connecting → s.status ≠ .connect → s.attempt = none

/-- What a ready client keeps: what is remembered and what is waited for was fulfilled. -/
structure Usable (s : State) : Prop where
  remembered : ∃ p, s.connectionReady = some p ∧ s.settled p = some true
  waited : ∀ w ∈ s.waiting, s.settled w.promise = some true

theorem inv_init : Inv init :=
  ⟨fun p hp => by rcases hp with hp | ⟨w, hw, -⟩ <;> simp [init] at *, fun _ _ => rfl⟩

theorem State.settle_settled (status : Status) (b : Bool) (p : Nat) :
    (s.settle status b).settled p = if s.attempt = some p then some b else s.settled p := by
  simp only [State.settle]
  cases ha : s.attempt with
  | none => simp
  | some q =>
      by_cases hq : q = p
      · subst hq; simp
      · simp [hq, Function.update_of_ne (Ne.symm hq)]

theorem Inv.call (hi : Inv s) (m : Method) : Inv (s.call m) := by
  cases hm : s.connectionReady with
  | some p =>
      rw [State.call_of_remembered hm]
      refine ⟨fun q hq => hi.pending q ?_, hi.idle⟩
      rcases hq with hq | ⟨w, hw, rfl⟩
      · exact .inl hq
      · rcases List.mem_cons.mp hw with rfl | hw
        · exact .inl hm
        · exact .inr ⟨w, hw, rfl⟩
  | none =>
      by_cases hb : s.status.busy = true
      · rw [State.call_of_busy hm hb]
        refine ⟨?_, hi.idle⟩
        intro q hq hs
        by_cases hqc : q = s.calls
        · subst hqc; simp at hs
        · simp only [Function.update_of_ne hqc] at hs
          refine hi.pending q ?_ hs
          rcases hq with hq | ⟨w, hw, rfl⟩
          · exact absurd (Option.some.inj hq).symm hqc
          · rcases List.mem_cons.mp hw with rfl | hw
            · exact absurd rfl hqc
            · exact .inr ⟨w, hw, rfl⟩
      · -- a new attempt starts, and none was under way
        have hidle : s.attempt = none := by
          apply hi.idle <;> rintro h' <;> simp [h', Status.busy] at hb
        simp only [State.call, State.remember, hm, State.clientConnect, hb, Bool.false_eq_true,
          if_false]
        refine ⟨?_, fun h' => absurd rfl h'⟩
        intro q hq hs
        rcases hq with hq | ⟨w, hw, rfl⟩
        · exact hq
        · rcases List.mem_cons.mp hw with rfl | hw
          · rfl
          · have := hi.pending _ (.inr ⟨w, hw, rfl⟩) hs
            rw [hidle] at this
            cases this

theorem Inv.settle (hi : Inv s) (status : Status) (b : Bool) : Inv (s.settle status b) := by
  refine ⟨?_, fun _ _ => rfl⟩
  intro p hp hs
  rw [State.settle_settled] at hs
  by_cases ha : s.attempt = some p
  · simp [ha] at hs
  · rw [if_neg ha] at hs
    exact absurd (hi.pending p hp hs) ha

/-- What is in use after a call resumed was in use before. -/
theorem State.resume_spec {w : Waiting} (hs : s.resume h w = some s') :
    s'.status = s.status ∧ s'.attempt = s.attempt ∧ s'.settled = s.settled ∧
      s'.waiting = s.waiting.erase w ∧
      ((s.settled w.promise = some true ∧ s'.connectionReady = s.connectionReady) ∨
        (s.settled w.promise = some false ∧ s'.connectionReady = none)) := by
  rcases hp : s.settled w.promise with _ | _ | _
  · simp [State.resume, hp] at hs
  · rw [State.resume_rejected hp] at hs
    obtain rfl := Option.some.inj hs
    exact ⟨rfl, rfl, rfl, rfl, .inr ⟨rfl, rfl⟩⟩
  · rw [State.resume_fulfilled hp] at hs
    obtain rfl := Option.some.inj hs
    exact ⟨rfl, rfl, rfl, rfl, .inl ⟨rfl, rfl⟩⟩

theorem Inv.resume (hi : Inv s) {w : Waiting} (hs : s.resume h w = some s') : Inv s' := by
  obtain ⟨hst, hat, hse, hwa, hcr⟩ := State.resume_spec hs
  refine ⟨fun p hp => ?_, fun h₁ h₂ => ?_⟩
  · rw [hse, hat]
    refine hi.pending p ?_
    rcases hp with hp | ⟨v, hv, rfl⟩
    · rcases hcr with ⟨-, hcr⟩ | ⟨-, hcr⟩
      · exact .inl (hcr ▸ hp)
      · rw [hcr] at hp; cases hp
    · exact .inr ⟨v, List.mem_of_mem_erase (hwa ▸ hv), rfl⟩
  · rw [hat]
    exact hi.idle (hst ▸ h₁) (hst ▸ h₂)

theorem Inv.step (hi : Inv s) {e : Event} (hs : step h s e = some s') : Inv s' := by
  cases e with
  | call m =>
      obtain rfl := Option.some.inj hs
      exact hi.call m
  | resume c =>
      obtain ⟨w, -, hs⟩ := Option.bind_eq_some_iff.mp hs
      exact hi.resume hs
  | connected =>
      obtain ⟨-, hs⟩ := Option.ite_none_right_eq_some.mp hs
      obtain rfl := Option.some.inj hs
      exact ⟨hi.pending, fun _ h' => absurd rfl h'⟩
  | becomesReady | fails =>
      obtain ⟨-, hs⟩ := Option.ite_none_right_eq_some.mp hs
      obtain rfl := Option.some.inj hs
      exact hi.settle _ _
  | drops =>
      obtain ⟨⟨hr, -⟩, hs⟩ := Option.ite_none_right_eq_some.mp hs
      obtain rfl := Option.some.inj hs
      exact ⟨hi.pending, fun _ _ => hi.idle (by rw [hr]; simp) (by rw [hr]; simp)⟩
  | retries =>
      obtain ⟨-, hs⟩ := Option.ite_none_right_eq_some.mp hs
      obtain rfl := Option.some.inj hs
      exact ⟨hi.pending, fun h' => absurd rfl h'⟩

/-- The status a step ends in is `ready` only for a client that was, or that becomes so now. -/
theorem step_ready_cases {e : Event} (hs : step h s e = some s') (hr : s'.status = .ready) :
    (s.status = .ready ∧ ((∃ m, s' = s.call m) ∨ ∃ w ∈ s.waiting, s.resume h w = some s')) ∨
      (e = .becomesReady ∧ s.Quiet ∧ s' = s.settle .ready true) := by
  cases e with
  | call m =>
      obtain rfl := Option.some.inj hs
      refine .inl ⟨?_, .inl ⟨m, rfl⟩⟩
      cases hm : s.connectionReady with
      | some p => simpa [State.call_of_remembered hm] using hr
      | none =>
          by_cases hb : s.status.busy = true
          · simpa [State.call_of_busy hm hb] using hr
          · simp [State.call, State.remember, hm, State.clientConnect, hb] at hr
  | resume c =>
      obtain ⟨w, hw, hs⟩ := Option.bind_eq_some_iff.mp hs
      refine .inl ⟨?_, .inr ⟨w, List.mem_of_find?_eq_some hw, hs⟩⟩
      rw [← (State.resume_spec hs).1, hr]
  | becomesReady =>
      obtain ⟨⟨-, hq⟩, hs⟩ := Option.ite_none_right_eq_some.mp hs
      exact .inr ⟨rfl, hq, (Option.some.inj hs).symm⟩
  | connected | fails | drops | retries =>
      obtain ⟨-, hs⟩ := Option.ite_none_right_eq_some.mp hs
      obtain rfl := Option.some.inj hs
      simp [State.settle] at hr

/-- The client that becomes ready with the right promise remembered is usable. -/
theorem usable_settle (hi : Inv s) (hq : s.Quiet) (hc : ReadyRemembered s .becomesReady) :
    Usable (s.settle .ready true) := by
  obtain ⟨p, hm, hp⟩ := hc rfl
  refine ⟨⟨p, hm, ?_⟩, fun w hw => ?_⟩
  · rw [State.settle_settled]
    split
    · rfl
    · exact hp.resolve_left ‹_›
  · rw [State.settle_settled, if_pos (hi.pending _ (.inr ⟨w, hw, rfl⟩) (hq w hw))]

theorem Usable.call (hu : Usable s) (m : Method) : Usable (s.call m) := by
  obtain ⟨p, hm, hp⟩ := hu.remembered
  rw [State.call_of_remembered hm]
  refine ⟨⟨p, hm, hp⟩, ?_⟩
  intro w hw
  rcases List.mem_cons.mp hw with rfl | hw
  · exact hp
  · exact hu.waited w hw

theorem Usable.resume (hu : Usable s) {w : Waiting} (hw : w ∈ s.waiting)
    (hs : s.resume h w = some s') : Usable s' := by
  obtain ⟨-, -, hse, hwa, hcr⟩ := State.resume_spec hs
  rcases hcr with ⟨-, hcr⟩ | ⟨hf, -⟩
  · refine ⟨by rw [hse, hcr]; exact hu.remembered, ?_⟩
    intro v hv
    rw [hse]
    exact hu.waited v (List.mem_of_mem_erase (hwa ▸ hv))
  · rw [hu.waited w hw] at hf
    cases hf

/-- The invariant of a run that meets `ReadyRemembered`. -/
theorem inv_usable_step {e : Event} (hi : Inv s ∧ (s.status = .ready → Usable s))
    (hc : ReadyRemembered s e) (hs : step h s e = some s') :
    Inv s' ∧ (s'.status = .ready → Usable s') := by
  refine ⟨hi.1.step hs, ?_⟩
  intro hr
  rcases step_ready_cases hs hr with ⟨hr₀, ⟨m, rfl⟩ | ⟨w, hw, hs⟩⟩ | ⟨rfl, hq, rfl⟩
  · exact (hi.2 hr₀).call m
  · exact (hi.2 hr₀).resume hw hs
  · exact usable_settle hi.1 hq hc

/-- A client that recovers after it became ready had the right promise remembered. -/
theorem readyRemembered_of_recovers {e : Event} (hs : step h s e = some s')
    (hrec : Recovers h s') : ReadyRemembered s e := by
  rintro rfl
  obtain ⟨-, hs⟩ := Option.ite_none_right_eq_some.mp hs
  obtain rfl := Option.some.inj hs
  obtain ⟨p, hm, hp⟩ := (recovers_ready_iff rfl).mp hrec
  refine ⟨p, hm, ?_⟩
  rw [State.settle_settled] at hp
  by_cases ha : s.attempt = some p
  · exact .inl ha
  · exact .inr (by rwa [if_neg ha] at hp)

/-- **Recovery.**  Over a run from a new wrapper, every ready state serves the next call exactly
when the client never becomes ready but with that attempt's promise, or a fulfilled one,
remembered. -/
theorem recovers_iff (h : Hashing) {es : List Event} {s : State}
    (hr : run (step h) init es = some s) :
    Always (step h) (Recovers h) init es ↔ Meets (step h) ReadyRemembered init es := by
  constructor
  · intro hP
    exact meets_of_always (fun _ _ _ _ hs hrec => readyRemembered_of_recovers hs hrec) hP hr
  · intro hC
    refine always_of_invariant (I := fun s => Inv s ∧ (s.status = .ready → Usable s))
      (fun s hI hready => ?_) (fun _ _ _ hI hc hs => inv_usable_step hI hc hs) hC
      ⟨inv_init, fun h' => by cases h'⟩
    exact (recovers_ready_iff hready).mpr (hI.2 hready).remembered hready

/-- The first attempt succeeds. -/
def firstConnects : List Event := [.call (.get []), .connected, .becomesReady, .resume 0]

theorem recovers_iff_connected :
    Always (step ⟨id, id⟩) (Recovers ⟨id, id⟩) init firstConnects ↔
      Meets (step ⟨id, id⟩) ReadyRemembered init firstConnects :=
  recovers_iff ⟨id, id⟩ rfl

/-- The first attempt fails, which the caller is told; the client's own retry then succeeds. -/
def retriedByClient : List Event :=
  [.call (.get []), .fails, .resume 0, .retries, .connected, .becomesReady]

/-- After `retriedByClient` the client is ready and the next call fails. -/
theorem not_recovers_retriedByClient :
    ¬ ∀ h es s, run (step h) init es = some s → Recovers h s := by
  intro hall
  have hrec := hall ⟨id, id⟩ retriedByClient _ rfl
  obtain ⟨p, hm, -⟩ := (recovers_ready_iff rfl).mp hrec
  cases hm

end Runs

end MediumClone.Redis
