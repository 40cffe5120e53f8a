import MediumClone.Support.JsText
import MediumClone.Support.Run

/-!
# Auth — DenyList

`TokenDenyListService` (`src/auth/token-deny-list.service.ts`) under `AuthService.authenticate` and
`AuthService.logout` (`src/auth/auth.service.ts`), on one clock in integer milliseconds.

A token is named by its `jti`, which is drawn fresh, and expires at `exp jti` seconds.  A logout
reads the clock, and stores the token's key with the whole seconds it still has to live; when there
are none it stores nothing.  An authentication has the token verified, which is possible only
before it expires, and then looks the key up.  Commands reach Redis later than they are sent, and
a reply may be lost.

The time left is rounded up and counts from when Redis stores it, so the key outlives the token
(`Revoked`).  An authentication that was verified in time can still look the key up when both are
gone: that is the only way one succeeds after a logout (`logout_final`).
-/

namespace MediumClone.Auth
open Js Sys

/-- Which optional dependencies an `AuthService` was given. -/
structure Wiring where
  tokenVerifier : Bool
  tokenDenyList : Bool

inductive AuthError where
  | invalidToken
  | logoutUnavailable
  | denyListUnavailable
  deriving DecidableEq

inductive Phase where
  | idle
  | denying (jti : Str)
  | loggedOut (jti : Str)
  | verifying (jti : Str)
  /-- With Redis's answer, whether the key was there, and when it was given. -/
  | reading (jti : Str) (answer : Option (Bool × ℤ))
  /-- With the time of the look-up; there is none without a deny list. -/
  | authenticated (jti : Str) (readAt : Option ℤ)
  | threw (error : AuthError)
  deriving DecidableEq

structure State (ι : Type*) where
  clock : ℤ
  /-- When a stored key expires. -/
  store : Str → Option ℤ
  /-- A `SET` that has not reached Redis yet: the key's token and its seconds. -/
  sent : ι → Option (Str × ℤ)
  phase : ι → Phase

inductive Event (ι : Type*) where
  | tick (now : ℤ)
  | logout (c : ι) (jti : Str)
  | redisSets (c : ι)
  | setResolves (c : ι)
  | setRejects (c : ι)
  | authenticate (c : ι) (jti : Str)
  | verified (c : ι)
  | verifyFails (c : ι)
  | redisGets (c : ι)
  | getResolves (c : ι)
  | getRejects (c : ι)

/-- `TokenDenyListService.key`. -/
def key (tokenId : Str) : Str := "auth:deny-list:".toList ++ tokenId

theorem key_inj {jti jti' : Str} (h : key jti = key jti') : jti = jti' :=
  List.append_cancel_left h

section Step

variable {ι : Type*} [DecidableEq ι] (w : Wiring) (exp : Str → ℤ)

def init (ι : Type*) (clock : ℤ) : State ι where
  clock := clock
  store := fun _ => none
  sent := fun _ => none
  phase := fun _ => .idle

def State.set (s : State ι) (c : ι) (p : Phase) : State ι :=
  { s with phase := Function.update s.phase c p }

/-- `claims.exp - Math.floor(this.now() / 1_000)`. -/
def ttlSeconds (s : State ι) (jti : Str) : ℤ := exp jti - s.clock / 1000

/-- The key can be read. -/
def State.readable (s : State ι) (jti : Str) : Bool :=
  match s.store (key jti) with
  | some expiry => decide (s.clock < expiry)
  | none => false

def step (s : State ι) : Event ι → Option (State ι)
  | .tick now => if s.clock ≤ now then some { s with clock := now } else none
  | .logout c jti =>
    match s.phase c with
    | .idle =>
      if !w.tokenDenyList then some (s.set c (.threw .logoutUnavailable))
      else if ttlSeconds exp s jti ≤ 0 then some (s.set c (.loggedOut jti))
      else some { s.set c (.denying jti) with
        sent := Function.update s.sent c (some (jti, ttlSeconds exp s jti)) }
    | _ => none
  | .redisSets c =>
    match s.sent c with
    | some (jti, ttl) => some { s with
        store := Function.update s.store (key jti) (some (s.clock + 1000 * ttl))
        sent := Function.update s.sent c none }
    | none => none
  | .setResolves c =>
    match s.phase c, s.sent c with
    | .denying jti, none => some (s.set c (.loggedOut jti))
    | _, _ => none
  | .setRejects c =>
    -- the command may still reach Redis
    match s.phase c with
    | .denying _ => some (s.set c (.threw .denyListUnavailable))
    | _ => none
  | .authenticate c jti =>
    match s.phase c with
    | .idle =>
      if !w.tokenVerifier then some (s.set c (.threw .invalidToken))
      else some (s.set c (.verifying jti))
    | _ => none
  | .verified c =>
    match s.phase c with
    | .verifying jti =>
      if s.clock / 1000 < exp jti then
        if w.tokenDenyList then some (s.set c (.reading jti none))
        else some (s.set c (.authenticated jti none))
      else none
    | _ => none
  | .verifyFails c =>
    match s.phase c with
    | .verifying _ => some (s.set c (.threw .invalidToken))
    | _ => none
  | .redisGets c =>
    match s.phase c with
    | .reading jti none => some (s.set c (.reading jti (some (s.readable jti, s.clock))))
    | _ => none
  | .getResolves c =>
    match s.phase c with
    | .reading _ (some (true, _)) => some (s.set c (.threw .invalidToken))
    | .reading jti (some (false, readAt)) => some (s.set c (.authenticated jti (some readAt)))
    | _ => none
  | .getRejects c =>
    match s.phase c with
    | .reading _ _ => some (s.set c (.threw .denyListUnavailable))
    | _ => none

end Step

/-! ### What a step does -/

section Transition

variable {ι : Type*} [DecidableEq ι] {w : Wiring} {exp : Str → ℤ} {s s' : State ι} {e : Event ι}

/-- The steps, each with what the call finds. -/
inductive Transition (w : Wiring) (exp : Str → ℤ) (s : State ι) : Event ι → State ι → Prop where
  | ticks {now} (h : s.clock ≤ now) : Transition w exp s (.tick now) { s with clock := now }
  | unwired {c jti} (hp : s.phase c = .idle) :
      Transition w exp s (.logout c jti) (s.set c (.threw .logoutUnavailable))
  | expired {c jti} (hp : s.phase c = .idle) (hw : w.tokenDenyList = true)
      (ht : ttlSeconds exp s jti ≤ 0) :
      Transition w exp s (.logout c jti) (s.set c (.loggedOut jti))
  | denies {c jti} (hp : s.phase c = .idle) (hw : w.tokenDenyList = true) :
      Transition w exp s (.logout c jti) { s.set c (.denying jti) with
        sent := Function.update s.sent c (some (jti, ttlSeconds exp s jti)) }
  | redisSets {c jti ttl} (hs : s.sent c = some (jti, ttl)) :
      Transition w exp s (.redisSets c) { s with
        store := Function.update s.store (key jti) (some (s.clock + 1000 * ttl))
        sent := Function.update s.sent c none }
  | logsOut {c jti} (hp : s.phase c = .denying jti) (hs : s.sent c = none) :
      Transition w exp s (.setResolves c) (s.set c (.loggedOut jti))
  | setRejects {c jti} (hp : s.phase c = .denying jti) :
      Transition w exp s (.setRejects c) (s.set c (.threw .denyListUnavailable))
  | unverifiable {c jti} (hp : s.phase c = .idle) :
      Transition w exp s (.authenticate c jti) (s.set c (.threw .invalidToken))
  | starts {c jti} (hp : s.phase c = .idle) :
      Transition w exp s (.authenticate c jti) (s.set c (.verifying jti))
  | verifies {c jti} (hp : s.phase c = .verifying jti) (hw : w.tokenDenyList = true) :
      Transition w exp s (.verified c) (s.set c (.reading jti none))
  | unchecked {c jti} (hp : s.phase c = .verifying jti) (hw : w.tokenDenyList = false) :
      Transition w exp s (.verified c) (s.set c (.authenticated jti none))
  | verifyFails {c jti} (hp : s.phase c = .verifying jti) :
      Transition w exp s (.verifyFails c) (s.set c (.threw .invalidToken))
  | redisGets {c jti} (hp : s.phase c = .reading jti none) :
      Transition w exp s (.redisGets c)
        (s.set c (.reading jti (some (s.readable jti, s.clock))))
  | denied {c jti readAt} (hp : s.phase c = .reading jti (some (true, readAt))) :
      Transition w exp s (.getResolves c) (s.set c (.threw .invalidToken))
  | accepts {c jti readAt} (hp : s.phase c = .reading jti (some (false, readAt))) :
      Transition w exp s (.getResolves c) (s.set c (.authenticated jti (some readAt)))
  | getRejects {c jti answer} (hp : s.phase c = .reading jti answer) :
      Transition w exp s (.getRejects c) (s.set c (.threw .denyListUnavailable))

theorem step_transition (hs : step w exp s e = some s') : Transition w exp s e s' := by
  cases e with
  | tick now =>
      obtain ⟨h, hs⟩ := Option.ite_none_right_eq_some.mp hs
      cases hs
      exact .ticks h
  | logout c jti =>
      simp only [step] at hs
      split at hs
      · rename_i hp
        split at hs
        · cases hs
          exact .unwired hp
        · rename_i hw
          have hw : w.tokenDenyList = true := by simpa using hw
          split at hs
          · rename_i ht
            cases hs
            exact .expired hp hw ht
          · cases hs
            exact .denies hp hw
      · cases hs
  | redisSets c =>
      simp only [step] at hs
      split at hs
      · rename_i h
        cases hs
        exact .redisSets h
      · cases hs
  | setResolves c =>
      simp only [step] at hs
      split at hs
      · rename_i hp h
        cases hs
        exact .logsOut hp h
      · cases hs
  | setRejects c =>
      simp only [step] at hs
      split at hs
      · rename_i hp
        cases hs
        exact .setRejects hp
      · cases hs
  | authenticate c jti =>
      simp only [step] at hs
      split at hs
      · rename_i hp
        split at hs
        · cases hs
          exact .unverifiable hp
        · cases hs
          exact .starts hp
      · cases hs
  | verified c =>
      simp only [step] at hs
      split at hs
      · rename_i hp
        obtain ⟨-, hs⟩ := Option.ite_none_right_eq_some.mp hs
        split at hs
        · rename_i hw
          cases hs
          exact .verifies hp hw
        · rename_i hw
          cases hs
          exact .unchecked hp (by simpa using hw)
      · cases hs
  | verifyFails c =>
      simp only [step] at hs
      split at hs
      · rename_i hp
        cases hs
        exact .verifyFails hp
      · cases hs
  | redisGets c =>
      simp only [step] at hs
      split at hs
      · rename_i hp
        cases hs
        exact .redisGets hp
      · cases hs
  | getResolves c =>
      simp only [step] at hs
      split at hs
      · rename_i hp
        cases hs
        exact .denied hp
      · rename_i hp
        cases hs
        exact .accepts hp
      · cases hs
  | getRejects c =>
      simp only [step] at hs
      split at hs
      · rename_i hp
        cases hs
        exact .getRejects hp
      · cases hs

end Transition

/-! ### Revoked tokens -/

section Revoked

variable {ι : Type*} {w : Wiring} {exp : Str → ℤ} {s s' : State ι} {e : Event ι} {jti : Str}

/-- The token has expired, or its key will be there until it has. -/
def Revoked (exp : Str → ℤ) (s : State ι) (jti : Str) : Prop :=
  1000 * exp jti ≤ s.clock ∨ ∃ expiry, s.store (key jti) = some expiry ∧ 1000 * exp jti ≤ expiry

/-- A `SET` on its way lives long enough whenever it is stored; a logout's `SET` is on its way or
has revoked the token; and a logout that has returned has revoked it. -/
structure Inv (w : Wiring) (exp : Str → ℤ) (s : State ι) : Prop where
  sent : ∀ c jti ttl, s.sent c = some (jti, ttl) → 1000 * exp jti ≤ s.clock + 1000 * ttl
  denying : ∀ c jti, s.phase c = .denying jti →
    w.tokenDenyList = true ∧ ((∃ ttl, s.sent c = some (jti, ttl)) ∨ Revoked exp s jti)
  loggedOut : ∀ c jti, s.phase c = .loggedOut jti →
    w.tokenDenyList = true ∧ Revoked exp s jti

theorem inv_init (clock : ℤ) : Inv w exp (init ι clock) :=
  ⟨fun _ _ _ h => (by cases h), fun _ _ h => (by cases h), fun _ _ h => (by cases h)⟩

/-- The time left, in whole seconds, reaches to the expiry of the token. -/
theorem le_clock_add_ttl (exp : Str → ℤ) (s : State ι) (jti : Str) :
    1000 * exp jti ≤ s.clock + 1000 * ttlSeconds exp s jti := by
  simp only [ttlSeconds]
  omega

/-- A key that cannot be read any more is that of an expired token. -/
theorem Revoked.expired (h : Revoked exp s jti) (hr : s.readable jti = false) :
    1000 * exp jti ≤ s.clock := by
  rcases h with h | ⟨expiry, hx, h⟩
  · exact h
  · simp only [State.readable, hx, decide_eq_false_iff_not, not_lt] at hr
    exact h.trans hr

variable [DecidableEq ι]

theorem Transition.clock_le (h : Transition w exp s e s') : s.clock ≤ s'.clock := by
  cases h with
  | ticks h => exact h
  | _ => exact le_rfl

theorem Revoked.step (h : Revoked exp s jti) (hi : Inv w exp s) (ht : Transition w exp s e s') :
    Revoked exp s' jti := by
  rcases h with h | ⟨expiry, hx, h⟩
  · exact .inl (h.trans ht.clock_le)
  · cases ht with
    | @redisSets c jti' ttl hs =>
        by_cases hk : key jti = key jti'
        · -- the key is stored again, for long enough
          obtain rfl := key_inj hk
          exact .inr ⟨_, Function.update_self _ _ _, hi.sent c jti ttl hs⟩
        · exact .inr ⟨expiry, (Function.update_of_ne hk _ _).trans hx, h⟩
    | _ => exact .inr ⟨expiry, hx, h⟩

theorem set_phase_eq {c d : ι} {p q : Phase} (h : (s.set c p).phase d = q) :
    (d = c ∧ p = q) ∨ s.phase d = q := by
  by_cases hd : d = c
  · subst hd
    exact .inl ⟨rfl, (Function.update_self _ _ _).symm.trans h⟩
  · exact .inr ((Function.update_of_ne hd _ _).symm.trans h)

theorem set_phase_of {P : Phase → Prop} {d : ι} (h : P (s.phase d)) {c : ι} {p : Phase}
    (hp : c = d → P p) : P ((s.set c p).phase d) := by
  rcases set_phase_eq (Eq.refl ((s.set c p).phase d)) with ⟨hd, heq⟩ | heq
  · rw [← heq]
    exact hp hd.symm
  · rwa [← heq]

theorem Inv.sent_step (hi : Inv w exp s) (h : Transition w exp s e s') (c : ι) (jti : Str)
    (ttl : ℤ) (hs : s'.sent c = some (jti, ttl)) : 1000 * exp jti ≤ s'.clock + 1000 * ttl := by
  have hold : s.sent c = some (jti, ttl) → 1000 * exp jti ≤ s'.clock + 1000 * ttl := by
    intro hs
    have := hi.sent c jti ttl hs
    have := h.clock_le
    omega
  cases h with
  | @denies d jti' hp hw =>
      by_cases hd : c = d
      · subst hd
        simp only [Function.update_self, Option.some.injEq, Prod.mk.injEq] at hs
        obtain ⟨rfl, rfl⟩ := hs
        exact le_clock_add_ttl exp s jti'
      · exact hold ((Function.update_of_ne hd _ _).symm.trans hs)
  | @redisSets d jti' ttl' hd =>
      by_cases hd : c = d
      · subst hd
        cases (Function.update_self _ _ _).symm.trans hs
      · exact hold ((Function.update_of_ne hd _ _).symm.trans hs)
  | _ => exact hold hs

theorem Inv.denying_step (hi : Inv w exp s) (h : Transition w exp s e s') (c : ι) (jti : Str)
    (hp : s'.phase c = .denying jti) :
    w.tokenDenyList = true ∧ ((∃ ttl, s'.sent c = some (jti, ttl)) ∨ Revoked exp s' jti) := by
  -- a call that was denying before, in a step that leaves what it sent alone
  have hold : s'.sent c = s.sent c → s.phase c = .denying jti → w.tokenDenyList = true ∧
      ((∃ ttl, s'.sent c = some (jti, ttl)) ∨ Revoked exp s' jti) := by
    intro hsent hp
    obtain ⟨hw, hc⟩ := hi.denying c jti hp
    rw [hsent]
    exact ⟨hw, hc.imp_right fun hr => hr.step hi h⟩
  have h' := h
  cases h' with
  | ticks => exact hold rfl hp
  | @denies d jti' hpd hw =>
      rcases set_phase_eq hp with ⟨rfl, hq⟩ | hp₀
      · cases hq
        exact ⟨hw, .inl ⟨_, Function.update_self _ _ _⟩⟩
      · by_cases hd : c = d
        · subst hd
          cases hpd.symm.trans hp₀
        · exact hold (Function.update_of_ne hd _ _) hp₀
  | @redisSets d jti' ttl' hs =>
      by_cases hd : c = d
      · subst hd
        obtain ⟨hw, ⟨ttl, hsc⟩ | hr⟩ := hi.denying c jti hp
        · obtain ⟨rfl, rfl⟩ := Prod.mk.inj (Option.some.inj (hsc.symm.trans hs))
          exact ⟨hw, .inr (.inr ⟨_, Function.update_self _ _ _, hi.sent c jti ttl hsc⟩)⟩
        · exact ⟨hw, .inr (hr.step hi h)⟩
      · exact hold (Function.update_of_ne hd _ _) hp
  | _ =>
      rcases set_phase_eq hp with ⟨-, hq⟩ | hp
      · cases hq
      · exact hold rfl hp

theorem Inv.loggedOut_step (hi : Inv w exp s) (h : Transition w exp s e s') (c : ι) (jti : Str)
    (hp : s'.phase c = .loggedOut jti) : w.tokenDenyList = true ∧ Revoked exp s' jti := by
  have hold : s.phase c = .loggedOut jti → w.tokenDenyList = true ∧ Revoked exp s' jti :=
    fun hp => ⟨(hi.loggedOut c jti hp).1, (hi.loggedOut c jti hp).2.step hi h⟩
  have h' := h
  cases h' with
  | ticks | redisSets => exact hold hp
  | @expired d jti' hpd hw ht =>
      rcases set_phase_eq hp with ⟨rfl, hq⟩ | hp
      · cases hq
        refine ⟨hw, .inl ?_⟩
        have := le_clock_add_ttl exp s jti
        simp only [State.set]
        omega
      · exact hold hp
  | @logsOut d jti' hpd hs =>
      rcases set_phase_eq hp with ⟨rfl, hq⟩ | hp
      · cases hq
        obtain ⟨hw, ⟨ttl, hsc⟩ | hr⟩ := hi.denying c jti hpd
        · rw [hs] at hsc
          cases hsc
        · exact ⟨hw, hr.step hi h⟩
      · exact hold hp
  | _ =>
      rcases set_phase_eq hp with ⟨-, hq⟩ | hp
      · cases hq
      · exact hold hp

theorem Inv.step (hi : Inv w exp s) (hs : step w exp s e = some s') : Inv w exp s' :=
  have h := step_transition hs
  ⟨hi.sent_step h, hi.denying_step h, hi.loggedOut_step h⟩

theorem inv_run {clock : ℤ} {es : List (Event ι)}
    (hr : run (Auth.step w exp) (init ι clock) es = some s) : Inv w exp s :=
  run_invariant' (fun _ _ _ hi hs => hi.step hs) (inv_init clock) hr

/-! ### Authentications after a logout -/

/-- An authentication of the token that Redis let through was looked up after the expiry. -/
def LateRead (exp : Str → ℤ) (jti : Str) : Phase → Prop
  | .reading jti' (some (false, readAt)) => jti' = jti → 1000 * exp jti ≤ readAt
  | .authenticated jti' readAt =>
    jti' = jti → ∃ t, readAt = some t ∧ 1000 * exp jti ≤ t
  | _ => True

/-- Of a revoked token, only late look-ups find nothing. -/
theorem LateRead.step {d : ι} (hl : LateRead exp jti (s.phase d)) (hrev : Revoked exp s jti)
    (hw : w.tokenDenyList = true) (h : Transition w exp s e s') :
    LateRead exp jti (s'.phase d) := by
  have hset : ∀ {c : ι} {p : Phase}, (c = d → LateRead exp jti p) →
      LateRead exp jti ((s.set c p).phase d) := set_phase_of hl
  cases h with
  | ticks | redisSets => exact hl
  | unchecked hp hw' => rw [hw] at hw'; cases hw'
  | @redisGets c jti' hp =>
      refine hset ?_
      intro hc
      cases hr : s.readable jti' with
      | true => trivial
      | false =>
          rintro rfl
          exact hrev.expired hr
  | @accepts c jti' readAt hp =>
      refine hset ?_
      rintro rfl rfl
      rw [hp] at hl
      exact ⟨readAt, rfl, hl rfl⟩
  | _ => exact hset fun _ => trivial

/-- Redis has not answered the authentication. -/
def Unread : Phase → Prop
  | .reading _ (some _) | .authenticated _ _ => False
  | _ => True

/-- An authentication that Redis has not answered is not accepted. -/
theorem unread_run {d : ι} (hw : w.tokenDenyList = true) {es : List (Event ι)}
    (hr : run (Auth.step w exp) s es = some s') (hd : Unread (s.phase d))
    (hes : ∀ e ∈ es, e ≠ .redisGets d) : Unread (s'.phase d) := by
  refine run_invariant (I := fun s => Unread (s.phase d)) (fun s e s' hu he hs => ?_)
    (meets_of_forall hes) hd hr
  cases step_transition hs with
  | ticks | redisSets => exact hu
  | unchecked hp hw' => rw [hw] at hw'; cases hw'
  | redisGets hp => exact set_phase_of hu fun hc => absurd (hc ▸ rfl) he
  | accepts hp =>
      refine set_phase_of hu ?_
      rintro rfl
      rw [hp] at hu
      exact hu.elim
  | _ => exact set_phase_of hu fun _ => trivial

/-- Redis has not taken the command of the logout `c`. -/
structure Unwritten (exp : Str → ℤ) (c : ι) (s : State ι) : Prop where
  denying : ∀ jti, s.phase c = .denying jti → s.sent c ≠ none
  loggedOut : ∀ jti, s.phase c = .loggedOut jti → 1000 * exp jti ≤ s.clock

theorem Unwritten.step {c : ι} (hu : Unwritten exp c s) (he : e ≠ .redisSets c)
    (h : Transition w exp s e s') : Unwritten exp c s' := by
  refine ⟨fun jti hp => ?_, fun jti hp => ?_⟩
  · cases h with
    | ticks => exact hu.denying jti hp
    | @redisSets d jti' ttl hs =>
        have hd : c ≠ d := fun hd => he (hd ▸ rfl)
        exact fun h => hu.denying jti hp ((Function.update_of_ne hd _ _).symm.trans h)
    | @denies d jti' hpd hw =>
        by_cases hd : c = d
        · subst hd
          intro h
          cases (Function.update_self _ _ _).symm.trans h
        · have hp := hu.denying jti ((Function.update_of_ne hd _ _).symm.trans hp)
          exact fun h => hp ((Function.update_of_ne hd _ _).symm.trans h)
    | _ =>
        rcases set_phase_eq hp with ⟨-, hq⟩ | hp
        · cases hq
        · exact hu.denying jti hp
  · have hold : s.phase c = .loggedOut jti → 1000 * exp jti ≤ s'.clock :=
      fun hp => (hu.loggedOut jti hp).trans h.clock_le
    cases h with
    | ticks | redisSets => exact hold hp
    | expired hpd hw ht =>
        rcases set_phase_eq hp with ⟨-, hq⟩ | hp
        · cases hq
          have := le_clock_add_ttl exp s jti
          simp only [State.set]
          omega
        · exact hold hp
    | logsOut hpd hs =>
        rcases set_phase_eq hp with ⟨rfl, -⟩ | hp
        · exact absurd hs (hu.denying _ hpd)
        · exact hold hp
    | _ =>
        rcases set_phase_eq hp with ⟨-, hq⟩ | hp
        · cases hq
        · exact hold hp

theorem unwritten_run {c : ι} {clock : ℤ} {es : List (Event ι)}
    (hr : run (Auth.step w exp) (init ι clock) es = some s) (hes : ∀ e ∈ es, e ≠ .redisSets c) :
    Unwritten exp c s :=
  run_invariant (I := Unwritten exp c) (C := fun _ e => e ≠ .redisSets c)
    (fun _ _ _ hu he hs => hu.step he (step_transition hs)) (meets_of_forall hes)
    ⟨fun _ h => (by cases h), fun _ h => (by cases h)⟩ hr

/-- **Logout is final until the token expires.**  Once a logout has returned, an authentication of
the token that starts later is accepted only if Redis looked the key up when the token had expired,
and not at all without an answer from Redis.  And a logout whose command Redis has not taken
returns only when the token has expired. -/
theorem logout_final {clock : ℤ} {es : List (Event ι)}
    (hr : run (Auth.step w exp) (init ι clock) es = some s) {c : ι}
    (hc : s.phase c = .loggedOut jti) :
    (∀ es' s' d readAt, run (Auth.step w exp) s es' = some s' → s.phase d = .idle →
      s'.phase d = .authenticated jti readAt →
      .redisGets d ∈ es' ∧ ∃ t, readAt = some t ∧ 1000 * exp jti ≤ t) ∧
    (.redisSets c ∉ es → 1000 * exp jti ≤ s.clock) := by
  obtain ⟨hw, hrev⟩ := (inv_run hr).loggedOut c jti hc
  refine ⟨fun es' s' d readAt hr' hidle hauth => ⟨?_, ?_⟩, fun hes => ?_⟩
  · by_contra hes
    have := unread_run hw hr' (by rw [hidle]; trivial) fun e he h => hes (h ▸ he)
    rw [hauth] at this
    exact this
  · have hlate : LateRead exp jti (s'.phase d) := by
      refine (run_invariant' (I := fun s => (Inv w exp s ∧ Revoked exp s jti) ∧
        LateRead exp jti (s.phase d)) (fun s e s' hi hs => ?_)
        ⟨⟨inv_run hr, hrev⟩, by rw [hidle]; trivial⟩ hr').2
      have h := step_transition hs
      exact ⟨⟨hi.1.1.step hs, hi.1.2.step hi.1.1 h⟩, hi.2.step hi.1.2 hw h⟩
    rw [hauth] at hlate
    exact hlate rfl
  · exact (unwritten_run hr fun e he h => hes (h ▸ he)).loggedOut jti hc

end Revoked

/-! ### A token about to expire -/

/-- A logout at time 0 of a token that expires at 10 s. -/
def logoutEvents : List (Event Bool) := [.logout false [], .redisSets false, .setResolves false]

/-- An authentication that is verified before the expiry, and looked up after it. -/
def lateLookup : List (Event Bool) :=
  [.authenticate true [], .tick 9999, .verified true, .tick 10001, .redisGets true,
    .getResolves true]

def wired : Wiring := ⟨true, true⟩

theorem logout_final_ten :
    ∃ s, run (step wired fun _ => 10) (init Bool 0) logoutEvents = some s ∧
      s.phase false = .loggedOut [] ∧
      (∀ es' s' d readAt, run (step wired fun _ => 10) s es' = some s' → s.phase d = .idle →
        s'.phase d = .authenticated [] readAt →
        .redisGets d ∈ es' ∧ ∃ t, readAt = some t ∧ 1000 * 10 ≤ t) ∧
      (.redisSets false ∉ logoutEvents → (1000 * 10 : ℤ) ≤ s.clock) :=
  ⟨_, rfl, rfl, @logout_final _ wired (fun _ => 10) _ [] _ 0 logoutEvents rfl false rfl⟩

/-- The authentication starts after the logout has returned, and is accepted. -/
theorem not_final_lateLookup :
    ∃ s s', run (step wired fun _ => 10) (init Bool 0) logoutEvents = some s ∧
      s.phase false = .loggedOut [] ∧ s.phase true = .idle ∧
      run (step wired fun _ => 10) s lateLookup = some s' ∧
      s'.phase true = .authenticated [] (some 10001) := by
  refine ⟨_, _, rfl, rfl, rfl, rfl, ?_⟩
  decide

end MediumClone.Auth
