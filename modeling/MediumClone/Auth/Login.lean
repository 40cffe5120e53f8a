import MediumClone.Auth.Provenance

/-!
# Auth — Login

What logins tell of the accounts there are: nothing, to someone without a password.

`AuthService.login` (`src/auth/auth.service.ts`) counts the attempt before it looks for the account,
and compares the password with the hash of no one when there is none.  Two services that differ in
who is registered go through the same events, and give the same answers, as long as each login finds
the same account in both or fails in both (`Alike`): a lockstep simulation.
-/

namespace MediumClone.Auth.Sessions
open Js Sys
open Filters (Exception HttpException)

section

variable {ι : Type*} (service : Service) (calls : ι → Request)

/-- The request has not the password of the user, if there is one. -/
def Mismatch (request : AuthLoginRequest) (user : Option User) : Prop :=
  ∀ u ∈ user, service.matchesPassword u.passwordHash request.password = false

/-- A login finds the same account in both states, or fails in both. -/
def Blind (s t : State ι) : Prop :=
  ∀ c request, calls c = .login request →
    s.findByEmail request.email = t.findByEmail request.email ∨
    Mismatch service request (s.findByEmail request.email) ∧
      Mismatch service request (t.findByEmail request.email)

/-- Where a login stands in two services: they may have found different users, of neither of whom
it has the password. -/
inductive SamePhase (c : ι) : Phase → Phase → Prop where
  | same (phase : Phase) : SamePhase c phase phase
  | found {user user' : Option User}
      (h : ∀ request, calls c = .login request → Mismatch service request user)
      (h' : ∀ request, calls c = .login request → Mismatch service request user') :
      SamePhase c (.found user) (.found user')

structure Alike (s t : State ι) : Prop where
  limiter : t.limiter = s.limiter
  phase : ∀ c, SamePhase service calls c (s.phase c) (t.phase c)
  blind : Blind service calls s t

end

section

variable {ι : Type*} {service : Service} {calls : ι → Request} {s t s' t' : State ι} {e : Event ι}
  {c : ι} {phase phase' : Phase} {request : AuthLoginRequest}

theorem Alike.clock (h : Alike service calls s t) : t.clock = s.clock :=
  congrArg RateLimit.State.clock h.limiter

/-- A login is in one phase in both, or has found different users. -/
theorem Alike.cases (h : Alike service calls s t) (hc : calls c = .login request) :
    t.phase c = s.phase c ∨ ∃ user user', s.phase c = .found user ∧ t.phase c = .found user' ∧
      Mismatch service request user ∧ Mismatch service request user' := by
  have hphase := h.phase c
  generalize s.phase c = phase at hphase ⊢
  generalize t.phase c = phase' at hphase ⊢
  cases hphase with
  | same => exact .inl rfl
  | found hm hm' => exact .inr ⟨_, _, rfl, rfl, hm request hc, hm' request hc⟩

variable [DecidableEq ι]

/-- A login moves alike in both. -/
theorem Alike.moves (h : Alike service calls s t) (hlimiter : t'.limiter = s'.limiter)
    (hp : SamePhase service calls c phase phase')
    (hs : s'.phase = Function.update s.phase c phase) (hus : s'.users = s.users)
    (ht : t'.phase = Function.update t.phase c phase') (hut : t'.users = t.users) :
    Alike service calls s' t' := by
  refine ⟨hlimiter, ?_, ?_⟩
  · intro c'
    rw [hs, ht]
    by_cases hc : c' = c
    · subst hc
      simpa only [Function.update_self] using hp
    · simpa only [Function.update_of_ne hc] using h.phase c'
  · simpa only [Blind, State.findByEmail, hus, hut] using h.blind

/-- It moves to one phase in both. -/
theorem Alike.set (h : Alike service calls s t) (c : ι) (phase : Phase) :
    Alike service calls (s.set c phase) (t.set c phase) :=
  h.moves h.limiter (.same phase) rfl rfl rfl rfl

/-! ### The awaits of a login -/

theorem alike_issues (h : Alike service calls s t) (hc : calls c = .login request) {tokenId : Str}
    (hs : step service calls s (.issues c tokenId) = some s') :
    ∃ t', step service calls t (.issues c tokenId) = some t' ∧ Alike service calls s' t' := by
  rcases h.cases hc with heq | ⟨user, user', hp, -⟩
  · cases hp : s.phase c with
    | matched user =>
        simp only [step, hc, hp] at hs
        cases hs
        refine ⟨_, by simp only [step, hc, heq, hp]; rfl, ?_⟩
        rw [h.clock]
        exact h.set c _
    | _ => simp [step, hc, hp] at hs
  · simp [step, hc, hp] at hs

/-- The attempt is counted before anything is known of the account. -/
theorem alike_consumes (h : Alike service calls s t) (hc : calls c = .login request)
    (hs : step service calls s (.consumes c) = some s') :
    ∃ t', step service calls t (.consumes c) = some t' ∧ Alike service calls s' t' := by
  rcases h.cases hc with heq | ⟨user, user', hp, -⟩
  · cases hp : s.phase c with
    | start =>
        simp only [step, hc, hp] at hs
        obtain ⟨limiter, hlimiter, rfl⟩ := Option.map_eq_some_iff.mp hs
        simp only [step, hc, heq, hp, h.limiter, h.clock, hlimiter, Option.map_some,
          Option.some.injEq, exists_eq_left']
        split
        · exact h.moves rfl (.same _) rfl rfl rfl rfl
        · exact h.moves rfl (.same _) rfl rfl rfl rfl
    | _ => simp [step, hc, hp] at hs
  · simp [step, hc, hp] at hs

theorem alike_findsByEmail (h : Alike service calls s t) (hc : calls c = .login request)
    (hs : step service calls s (.findsByEmail c) = some s') :
    ∃ t', step service calls t (.findsByEmail c) = some t' ∧ Alike service calls s' t' := by
  rcases h.cases hc with heq | ⟨user, user', hp, -⟩
  · cases hp : s.phase c with
    | consumed =>
        simp only [step, hc, hp] at hs
        cases hs
        refine ⟨t.set c (.found (t.findByEmail request.email)),
          by simp only [step, hc, heq, hp], h.moves h.limiter ?_ rfl rfl rfl rfl⟩
        -- the accounts are the same, or the password is of neither
        rcases h.blind c request hc with hfind | ⟨hm, hm'⟩
        · rw [hfind]
          exact .same _
        · refine .found ?_ ?_
          · intro request' hc'
            cases hc.symm.trans hc'
            exact hm
          · intro request' hc'
            cases hc.symm.trans hc'
            exact hm'
    | _ => simp [step, hc, hp] at hs
  · simp [step, hc, hp] at hs

/-- Who has not the password is refused, whether there is an account or not. -/
theorem step_compares_of_mismatch {user : Option User} (hc : calls c = .login request)
    (hp : s.phase c = .found user) (h : Mismatch service request user) :
    step service calls s (.compares c) =
      some (s.throw c (HttpException 401 "credentials" "invalid")) := by
  cases user with
  | none => simp only [step, hc, hp]
  | some u => simp [step, hc, hp, h u rfl]

theorem step_compares_of_match {u : User} (hc : calls c = .login request)
    (hp : s.phase c = .found (some u))
    (h : service.matchesPassword u.passwordHash request.password = true) :
    step service calls s (.compares c) = some (s.set c (.matched u)) := by
  simp [step, hc, hp, h]

theorem alike_compares (h : Alike service calls s t) (hc : calls c = .login request)
    (hs : step service calls s (.compares c) = some s') :
    ∃ t', step service calls t (.compares c) = some t' ∧ Alike service calls s' t' := by
  rcases h.cases hc with heq | ⟨user, user', hp, hp', hm, hm'⟩
  · cases hp : s.phase c with
    | found user =>
        have hp' := heq.trans hp
        by_cases hm : Mismatch service request user
        · rw [step_compares_of_mismatch hc hp hm] at hs
          cases hs
          exact ⟨_, step_compares_of_mismatch hc hp' hm, h.set c _⟩
        · obtain ⟨u, rfl, hmatch⟩ : ∃ u, user = some u ∧
              service.matchesPassword u.passwordHash request.password = true := by
            simpa [Mismatch] using hm
          rw [step_compares_of_match hc hp hmatch] at hs
          cases hs
          exact ⟨_, step_compares_of_match hc hp' hmatch, h.set c _⟩
    | _ => simp [step, hc, hp] at hs
  · rw [step_compares_of_mismatch hc hp hm] at hs
    cases hs
    exact ⟨_, step_compares_of_mismatch hc hp' hm', h.set c _⟩

theorem alike_fails (h : Alike service calls s t) (hc : calls c = .login request)
    (hs : step service calls s (.fails c) = some s') :
    ∃ t', step service calls t (.fails c) = some t' ∧ Alike service calls s' t' := by
  obtain ⟨exception, hrejection, rfl⟩ := Option.map_eq_some_iff.mp hs
  rcases h.cases hc with heq | ⟨user, user', hp, -⟩
  · refine ⟨(t.unlock c).throw c exception, ?_, h.moves h.limiter (.same _) rfl rfl rfl rfl⟩
    simp only [step, heq, hrejection, Option.map_some]
  · simp [rejection, hc, hp] at hrejection

/-! ### Every run -/

theorem alike_step (hlogins : ∀ c, ∃ request, calls c = .login request)
    (h : Alike service calls s t) (hs : step service calls s e = some s') :
    ∃ t', step service calls t e = some t' ∧ Alike service calls s' t' := by
  cases e with
  | tick now =>
      obtain ⟨limiter, hlimiter, rfl⟩ := Option.map_eq_some_iff.mp hs
      refine ⟨{ t with limiter := limiter }, ?_, rfl, h.phase, h.blind⟩
      rw [← h.limiter] at hlimiter
      simp only [step, hlimiter, Option.map_some]
  | issues c _ => exact alike_issues h (hlogins c).choose_spec hs
  | consumes c => exact alike_consumes h (hlogins c).choose_spec hs
  | findsByEmail c => exact alike_findsByEmail h (hlogins c).choose_spec hs
  | compares c => exact alike_compares h (hlogins c).choose_spec hs
  | fails c => exact alike_fails h (hlogins c).choose_spec hs
  | registers c | verifies c | looksUp c | findsByUsername c | saves c | denies c | receives c
  | locks c | commits c =>
      -- not events of a login
      obtain ⟨request, hc⟩ := hlogins c
      simp [step, hc, Request.guarded] at hs

/-- **Logins do not tell who is registered.**  Two services have the same limiter and other users,
and every login finds the same account in both or fails in both.  Then every interleaving of the
logins of one is one of the other, which gives every login the same answer, at the same event. -/
theorem logins_indistinguishable (hlogins : ∀ c, ∃ request, calls c = .login request)
    (hlimiter : t.limiter = s.limiter) (hphase : t.phase = s.phase)
    (hblind : Blind service calls s t) {es : List (Event ι)}
    (hr : run (step service calls) s es = some s') :
    ∃ t', run (step service calls) t es = some t' ∧ t'.limiter = s'.limiter ∧
      ∀ c result, t'.phase c = .answered result ↔ s'.phase c = .answered result := by
  have halike : Alike service calls s t := ⟨hlimiter, fun c => hphase ▸ .same _, hblind⟩
  have hstep : ∀ s e s' t, Alike service calls s t → step service calls s e = some s' →
      ∃ t', step service calls t e = some t' ∧ Alike service calls s' t' :=
    fun _ _ _ _ h hs => alike_step hlogins h hs
  obtain ⟨t', hr', h⟩ := run_simulates hstep halike hr
  refine ⟨t', hr', h.limiter, ?_⟩
  intro c result
  obtain ⟨request, hc⟩ := hlogins c
  rcases h.cases hc with heq | ⟨user, user', hp, hp', -⟩
  · rw [heq]
  · simp [hp, hp']

end

/-! ### A wrong password -/

/-- With one account, or none. -/
def sampleAccounts (users : List User) : State ℕ := { init ℕ 0 with users := users }

def jane : User where
  bio := none
  image := none
  username := "jane".toList
  email := "jane@example.com".toList
  passwordHash := sampleService.hashPassword "salt".toList "long enough".toList

/-- Two logins without the password of anyone. -/
def guesses : ℕ → Request
  | 0 => .login ⟨"jane@example.com".toList, none, "let me in".toList⟩
  | _ => .login ⟨"joe@example.com".toList, none, "let me in".toList⟩

theorem blind_guesses :
    Blind sampleService guesses (sampleAccounts [jane]) (sampleAccounts []) := by
  intro c request hc
  refine .inr ⟨?_, fun u hu => by cases hu⟩
  intro u hu
  obtain rfl := List.mem_singleton.mp (List.mem_of_find?_eq_some hu)
  match c, hc with
  | 0, rfl | _ + 1, rfl => decide +kernel

theorem logins_indistinguishable_sample : ∃ s' t',
    run (step sampleService guesses) (sampleAccounts [jane])
      [.consumes 0, .findsByEmail 0, .compares 0] = some s' ∧
    run (step sampleService guesses) (sampleAccounts [])
      [.consumes 0, .findsByEmail 0, .compares 0] = some t' ∧
    s'.phase 0 = .answered (.error (HttpException 401 "credentials" "invalid")) ∧
    t'.phase 0 = .answered (.error (HttpException 401 "credentials" "invalid")) := by
  have hlogins : ∀ c, ∃ request, guesses c = .login request := by
    intro c
    match c with
    | 0 | _ + 1 => exact ⟨_, rfl⟩
  obtain ⟨s', hs, hp⟩ : ∃ s', run (step sampleService guesses) (sampleAccounts [jane])
      [.consumes 0, .findsByEmail 0, .compares 0] = some s' ∧
      s'.phase 0 = .answered (.error (HttpException 401 "credentials" "invalid")) := ⟨_, rfl, rfl⟩
  have hlimiter : (sampleAccounts []).limiter = (sampleAccounts [jane]).limiter := rfl
  obtain ⟨t', ht, -, hanswers⟩ := logins_indistinguishable hlogins hlimiter rfl blind_guesses hs
  exact ⟨s', t', hs, ht, hp, (hanswers 0 _).mpr hp⟩

end MediumClone.Auth.Sessions
