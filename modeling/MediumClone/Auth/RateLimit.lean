import MediumClone.Redis.Connection
import MediumClone.Support.Window
import Mathlib.Logic.Function.Basic

/-!
# Auth — RateLimit

`AuthLoginRateLimiter.consume` (`src/auth/auth-login-rate-limiter.ts`) by any number of processes
over one Redis that is reachable.  `AUTH_LOGIN_INCREMENT_SCRIPT` runs as one step, on one clock in
integer milliseconds; a key is gone from the time it expires.

The script counts the attempts on a key in its current window, whatever becomes of them, and the
first of a window sets the expiry that closes it (`Inv.db`, `Window`).  A call has two keys, and is
accepted when both count at most `AUTH_LOGIN_MAX_ATTEMPTS`.
-/

namespace MediumClone.Auth.RateLimit
open Js Sys Redis

def AUTH_LOGIN_MAX_ATTEMPTS : ℕ := 5

/-! ### Redis -/

/-- A stored number. -/
structure Counter where
  value : ℕ
  expiresAt : Option ℤ
  deriving DecidableEq

abbrev Db := Str → Option Counter

/-- What a command finds at a key. -/
def Db.get (db : Db) (now : ℤ) (key : Str) : Option Counter :=
  (db key).filter fun c => c.expiresAt.all fun t => now < t

def Db.incr (db : Db) (now : ℤ) (key : Str) : ℕ × Db :=
  match db.get now key with
  | some c => (c.value + 1, Function.update db key (some { c with value := c.value + 1 }))
  | none => (1, Function.update db key (some ⟨1, none⟩))

def Db.pexpire (db : Db) (now : ℤ) (key : Str) (milliseconds : ℕ) : Db :=
  match db.get now key with
  | some c => Function.update db key (some { c with expiresAt := some (now + milliseconds) })
  | none => db

/-- One turn of the script's loop. -/
def Db.count (db : Db) (now : ℤ) (milliseconds : ℕ) (key : Str) : ℕ × Db :=
  let (count, db) := db.incr now key
  (count, if count = 1 then db.pexpire now key milliseconds else db)

/-- `AUTH_LOGIN_INCREMENT_SCRIPT`. -/
def Db.increment (now : ℤ) (milliseconds : ℕ) : List Str → Db → List ℕ × Db
  | [], db => ([], db)
  | key :: keys, db =>
    let (count, db) := db.count now milliseconds key
    let (counts, db) := increment now milliseconds keys db
    (count :: counts, db)

/-! ### The limiter -/

def isRateLimited (attempts : List ℕ) : Bool :=
  attempts.any fun attempt => AUTH_LOGIN_MAX_ATTEMPTS < attempt

/-- A call, with what became of it. -/
structure Call where
  time : ℤ
  email : Str
  ipAddress : Option Str
  accepted : Bool

structure State where
  clock : ℤ
  db : Db
  /-- The calls so far, in order. -/
  calls : List Call

inductive Event where
  | tick (now : ℤ)
  | consume (email : Str) (ipAddress : Option Str)

def init (clock : ℤ) : State where
  clock := clock
  db := fun _ => none
  calls := []

variable (h : Hashing)

/-- What a call counts under: the email without letter case, and the address. -/
def Call.account (c : Call) : Str := h.toLowerCase c.email

def Call.address (c : Call) : Str := c.ipAddress.getD "unknown".toList

def emailKey (account : Str) : Str := createLoginKey h "email".toList account

def ipKey (address : Str) : Str := createLoginKey h "ip".toList address

def consume (now : ℤ) (email : Str) (ipAddress : Option Str) (db : Db) : Bool × Db :=
  let keys := [emailKey h (h.toLowerCase email), ipKey h (ipAddress.getD "unknown".toList)]
  let (attempts, db) := db.increment now AUTH_LOGIN_WINDOW_MS keys
  (!isRateLimited attempts, db)

def step (s : State) : Event → Option State
  | .tick now => if s.clock ≤ now then some { s with clock := now } else none
  | .consume email ipAddress =>
    let (accepted, db) := consume h s.clock email ipAddress s.db
    some { s with db := db, calls := s.calls ++ [⟨s.clock, email, ipAddress, accepted⟩] }

section

variable {h : Hashing} {s s' : State} {e : Event}

/-! ### What a key counts -/

theorem email_toList : "email".toList = ['e', 'm', 'a', 'i', 'l'] := by simp

theorem ip_toList : "ip".toList = ['i', 'p'] := by simp

theorem emailKey_ne_ipKey (account address : Str) : emailKey h account ≠ ipKey h address := by
  intro heq
  unfold emailKey ipKey createLoginKey at heq
  rw [List.append_assoc, List.append_assoc, List.append_assoc, List.append_assoc] at heq
  have htype := List.append_cancel_left heq
  rw [email_toList, ip_toList, List.cons_append, List.cons_append] at htype
  exact absurd (List.cons.inj htype).1 (by decide)

/-- The counter of a window. -/
def counterOf (w : List Call) : Option Counter :=
  w.head?.map fun c => ⟨w.length, some (c.time + AUTH_LOGIN_WINDOW_MS)⟩

/-- The calls that count under a key. -/
def callsOn (h : Hashing) (key : Str) (calls : List Call) : List Call :=
  calls.filter fun c => key = emailKey h (c.account h) ∨ key = ipKey h c.address

/-- The window of a key at the end of `calls`. -/
def window (h : Hashing) (key : Str) (calls : List Call) : List Call :=
  current Call.time AUTH_LOGIN_WINDOW_MS (callsOn h key calls)

/-- The key's counter has expired, or there was none. -/
theorem count_fresh {db : Db} {key : Str} {now : ℤ} (c : Call) (hc : c.time = now)
    (hget : db.get now key = none) : db.count now AUTH_LOGIN_WINDOW_MS key =
      (1, Function.update db key (counterOf [c])) := by
  have hnew : Db.get (Function.update db key (some ⟨1, none⟩)) now key = some ⟨1, none⟩ := by
    simp [Db.get]
  simp only [Db.count, Db.incr, hget, if_true, Db.pexpire, hnew, Function.update_idem]
  simp [counterOf, hc]

theorem count_live {db : Db} {key : Str} {now : ℤ} {w : List Call} {a : Call} (c : Call)
    (hdb : db key = counterOf (a :: w)) (hlive : now < a.time + AUTH_LOGIN_WINDOW_MS) :
    db.count now AUTH_LOGIN_WINDOW_MS key =
      ((a :: w ++ [c]).length, Function.update db key (counterOf (a :: w ++ [c]))) := by
  have hget : db.get now key = counterOf (a :: w) := by
    rw [Db.get, hdb, counterOf, List.head?_cons, Option.map_some, Option.filter_some,
      if_pos (by simpa using hlive)]
  simp [Db.count, Db.incr, hget, counterOf]

theorem callsOn_concat {key : Str} {calls : List Call} {c : Call}
    (hkey : key = emailKey h (c.account h) ∨ key = ipKey h c.address) :
    callsOn h key (calls ++ [c]) = callsOn h key calls ++ [c] := by
  rw [callsOn, List.filter_append, List.filter_cons_of_pos (by simpa using hkey)]
  rfl

theorem callsOn_concat_of_not {key : Str} {calls : List Call} {c : Call}
    (hkey : ¬ (key = emailKey h (c.account h) ∨ key = ipKey h c.address)) :
    callsOn h key (calls ++ [c]) = callsOn h key calls := by
  rw [callsOn, List.filter_append, List.filter_cons_of_neg (by simpa using hkey), List.filter_nil,
    List.append_nil]
  rfl

/-- **What the script does to a key.**  It adds a call to the key's window. -/
theorem count_eq {db : Db} {key : Str} {calls : List Call} {c : Call}
    (hkey : key = emailKey h (c.account h) ∨ key = ipKey h c.address)
    (hdb : db key = counterOf (window h key calls)) :
    db.count c.time AUTH_LOGIN_WINDOW_MS key =
      ((window h key (calls ++ [c])).length,
        Function.update db key (counterOf (window h key (calls ++ [c])))) := by
  rw [window, callsOn_concat hkey, current_concat]
  rw [window] at hdb
  by_cases ho : OpenAt Call.time AUTH_LOGIN_WINDOW_MS (callsOn h key calls) c.time
  · rw [if_pos ho]
    obtain ⟨a, ha, hlt⟩ := ho
    obtain ⟨w, hw⟩ := List.head?_eq_some_iff.mp ha
    rw [hw] at hdb ⊢
    exact count_live c hdb hlt
  · rw [if_neg ho]
    refine count_fresh c rfl ?_
    rw [Db.get, hdb]
    cases hw : current Call.time AUTH_LOGIN_WINDOW_MS (callsOn h key calls) with
    | nil => rfl
    | cons a w =>
        have hexpired : ¬ c.time < a.time + AUTH_LOGIN_WINDOW_MS := by
          intro hlt
          exact ho ⟨a, by rw [hw]; rfl, hlt⟩
        simp [counterOf, hexpired]

/-- The call `c`, the last of `calls`, is among the first attempts on both of its keys. -/
def Within (h : Hashing) (calls : List Call) (c : Call) : Prop :=
  (window h (emailKey h (c.account h)) calls).length ≤ AUTH_LOGIN_MAX_ATTEMPTS ∧
    (window h (ipKey h c.address) calls).length ≤ AUTH_LOGIN_MAX_ATTEMPTS

/-- **What a call does.** -/
theorem consume_eq {db : Db} {calls : List Call}
    (hdb : ∀ key, db key = counterOf (window h key calls)) (c : Call) :
    ((consume h c.time c.email c.ipAddress db).1 = true ↔ Within h (calls ++ [c]) c) ∧
      ∀ key, (consume h c.time c.email c.ipAddress db).2 key =
        counterOf (window h key (calls ++ [c])) := by
  have hincrement : Db.increment c.time AUTH_LOGIN_WINDOW_MS
      [emailKey h (c.account h), ipKey h c.address] db =
        ([(window h (emailKey h (c.account h)) (calls ++ [c])).length,
          (window h (ipKey h c.address) (calls ++ [c])).length],
        Function.update (Function.update db (emailKey h (c.account h))
          (counterOf (window h (emailKey h (c.account h)) (calls ++ [c])))) (ipKey h c.address)
          (counterOf (window h (ipKey h c.address) (calls ++ [c])))) := by
    have hip : Function.update db (emailKey h (c.account h))
        (counterOf (window h (emailKey h (c.account h)) (calls ++ [c]))) (ipKey h c.address) =
          counterOf (window h (ipKey h c.address) calls) := by
      rw [Function.update_of_ne (emailKey_ne_ipKey _ _).symm]
      exact hdb _
    simp only [Db.increment, count_eq (.inl rfl) (hdb _), count_eq (.inr rfl) hip]
  change ((!isRateLimited (Db.increment c.time AUTH_LOGIN_WINDOW_MS
    [emailKey h (c.account h), ipKey h c.address] db).1) = true ↔ _) ∧ ∀ key,
      (Db.increment c.time AUTH_LOGIN_WINDOW_MS
        [emailKey h (c.account h), ipKey h c.address] db).2 key = _
  rw [hincrement]
  refine ⟨by simp [isRateLimited, Within], ?_⟩
  intro key
  dsimp only
  by_cases hip : key = ipKey h c.address
  · rw [hip, Function.update_self]
  · rw [Function.update_of_ne hip]
    by_cases hemail : key = emailKey h (c.account h)
    · rw [hemail, Function.update_self]
    · rw [Function.update_of_ne hemail, hdb, window, window,
        callsOn_concat_of_not (not_or.mpr ⟨hemail, hip⟩)]

/-! ### Every run -/

structure Inv (h : Hashing) (s : State) : Prop where
  db : ∀ key, s.db key = counterOf (window h key s.calls)
  times : s.calls.Pairwise fun c c' => c.time ≤ c'.time
  clock : ∀ c ∈ s.calls, c.time ≤ s.clock
  accepted : ∀ i (hi : i < s.calls.length),
    s.calls[i].accepted = true ↔ Within h (s.calls.take (i + 1)) s.calls[i]
  windows : ∀ key, ∀ w ∈ windows Call.time AUTH_LOGIN_WINDOW_MS (callsOn h key s.calls),
    w.countP Call.accepted ≤ AUTH_LOGIN_MAX_ATTEMPTS

theorem inv_init (clock : ℤ) : Inv h (init clock) where
  db _ := by simp [init, counterOf, window, callsOn, current]
  times := List.Pairwise.nil
  clock _ hc := by cases hc
  accepted i hi := absurd hi (Nat.not_lt_zero i)
  windows key w hw := by
    rw [show callsOn h key (init clock).calls = [] from rfl, windows_nil] at hw
    cases hw

/-- A call that is accepted is one of the first of its window. -/
theorem countP_windows_concat {calls : List Call} {c : Call} {n : ℕ}
    (hold : ∀ w ∈ windows Call.time AUTH_LOGIN_WINDOW_MS calls, w.countP Call.accepted ≤ n)
    (hc : c.accepted = true →
      (current Call.time AUTH_LOGIN_WINDOW_MS (calls ++ [c])).length ≤ n) :
    ∀ w ∈ windows Call.time AUTH_LOGIN_WINDOW_MS (calls ++ [c]), w.countP Call.accepted ≤ n := by
  have hlast :
      (current Call.time AUTH_LOGIN_WINDOW_MS (calls ++ [c])).countP Call.accepted ≤ n := by
    by_cases ha : c.accepted = true
    · exact List.countP_le_length.trans (hc ha)
    · rw [current_concat]
      split
      · rw [List.countP_append, List.countP_singleton, if_neg ha, Nat.add_zero]
        exact countP_current_le hold
      · rw [List.countP_singleton, if_neg ha]
        exact Nat.zero_le n
  -- the call joins the last window or opens one; the others are as before
  intro w hw
  rw [windows_concat] at hw
  rw [current_concat] at hlast
  split at hw
  · rename_i ho
    rw [if_pos ho] at hlast
    rcases List.mem_append.mp hw with hw | hw
    · exact hold w ((List.dropLast_sublist _).mem hw)
    · rwa [List.mem_singleton.mp hw]
  · rename_i ho
    rw [if_neg ho] at hlast
    rcases List.mem_append.mp hw with hw | hw
    · exact hold w hw
    · rwa [List.mem_singleton.mp hw]

theorem Inv.consume (hi : Inv h s) {c : Call} (hc : c.time = s.clock)
    (hc' : c.accepted = (RateLimit.consume h c.time c.email c.ipAddress s.db).1) :
    Inv h ⟨s.clock, (RateLimit.consume h c.time c.email c.ipAddress s.db).2, s.calls ++ [c]⟩ := by
  obtain ⟨haccepted, hdb⟩ := consume_eq hi.db c
  rw [← hc'] at haccepted
  refine ⟨hdb, ?_, ?_, ?_, ?_⟩
  · refine List.pairwise_append.mpr ⟨hi.times, List.pairwise_singleton _ _, ?_⟩
    intro c₁ hc₁ c₂ hc₂
    rw [List.mem_singleton.mp hc₂, hc]
    exact hi.clock c₁ hc₁
  · intro c₁ hc₁
    rcases List.mem_append.mp hc₁ with hc₁ | hc₁
    · exact hi.clock c₁ hc₁
    · rw [List.mem_singleton.mp hc₁]
      exact hc.le
  · dsimp only
    intro i hlen
    by_cases hlt : i < s.calls.length
    · rw [List.getElem_append_left hlt, List.take_append_of_le_length hlt]
      exact hi.accepted i hlt
    · have heq : i = s.calls.length := by
        rw [List.length_append, List.length_singleton] at hlen
        omega
      subst heq
      rw [List.getElem_concat_length rfl, List.take_of_length_le (by simp)]
      exact haccepted
  · dsimp only
    intro key
    -- a refused call counts in the windows of its two keys, but is not accepted there
    by_cases hkey : key = emailKey h (c.account h) ∨ key = ipKey h c.address
    · rw [callsOn_concat hkey]
      refine countP_windows_concat (hi.windows key) ?_
      intro hc
      rw [← callsOn_concat hkey]
      rcases hkey with rfl | rfl
      · exact (haccepted.mp hc).1
      · exact (haccepted.mp hc).2
    · rw [callsOn_concat_of_not hkey]
      exact hi.windows key

theorem Inv.step (hi : Inv h s) (hs : RateLimit.step h s e = some s') : Inv h s' := by
  cases e with
  | tick now =>
      obtain ⟨hnow, hs⟩ := Option.ite_none_right_eq_some.mp hs
      cases hs
      exact ⟨hi.db, hi.times, fun c hc => (hi.clock c hc).trans hnow, hi.accepted, hi.windows⟩
  | consume email ipAddress =>
      obtain rfl : _ = s' := Option.some.inj hs
      exact hi.consume (c := ⟨s.clock, email, ipAddress, _⟩) rfl rfl

theorem inv_run {clock : ℤ} {es : List Event} (hr : run (step h) (init clock) es = some s) :
    Inv h s :=
  run_invariant' (fun _ _ _ hi hs => hi.step hs) (inv_init clock) hr

/-! ### Accounts and addresses -/

/-- What attempts are counted under. -/
inductive Scope where
  | email
  | ip

def Scope.value (h : Hashing) : Scope → Call → Str
  | .email, c => c.account h
  | .ip, c => c.address

def Scope.key (h : Hashing) : Scope → Str → Str
  | .email, value => emailKey h value
  | .ip, value => ipKey h value

/-- The attempts for an account, or from an address. -/
def attempts (h : Hashing) (scope : Scope) (value : Str) (calls : List Call) : List Call :=
  calls.filter fun c => scope.value h c = value

/-- The emails of two calls of `es` have one digest only when they are the same up to letter case,
and so for the addresses. -/
def NoCollision (h : Hashing) (es : List Event) : Prop :=
  ∀ email ip email' ip', .consume email ip ∈ es → .consume email' ip' ∈ es →
    (h.sha256 (h.toLowerCase email) = h.sha256 (h.toLowerCase email') →
      h.toLowerCase email = h.toLowerCase email') ∧
    (h.sha256 (ip.getD "unknown".toList) = h.sha256 (ip'.getD "unknown".toList) →
      ip.getD "unknown".toList = ip'.getD "unknown".toList)

theorem mem_of_mem_calls {clock : ℤ} {es : List Event}
    (hr : run (step h) (init clock) es = some s) :
    ∀ c ∈ s.calls, .consume c.email c.ipAddress ∈ es := by
  refine run_history (I := fun es s => ∀ c ∈ s.calls, .consume c.email c.ipAddress ∈ es) ?_ ?_ hr
  · intro es s e s' hold hs c hc
    cases e with
    | tick now =>
        obtain ⟨-, hs⟩ := Option.ite_none_right_eq_some.mp hs
        cases hs
        exact List.mem_append_left _ (hold c hc)
    | consume email ipAddress =>
        obtain rfl : _ = s' := Option.some.inj hs
        rcases List.mem_append.mp hc with hc | hc
        · exact List.mem_append_left _ (hold c hc)
        · rw [List.mem_singleton.mp hc]
          exact List.mem_append_right _ (List.mem_singleton_self _)
  · intro c hc
    cases hc

theorem createLoginKey_inj {type value value' : Str}
    (heq : createLoginKey h type value = createLoginKey h type value') :
    h.sha256 value = h.sha256 value' :=
  List.append_cancel_left heq

/-- Without collisions, what counts under a key are the attempts. -/
theorem callsOn_eq_attempts {es : List Event} {calls : List Call} (hsha : NoCollision h es)
    (hcalls : ∀ c ∈ calls, .consume c.email c.ipAddress ∈ es) {c₀ : Call}
    (hc₀ : .consume c₀.email c₀.ipAddress ∈ es) (scope : Scope) :
    callsOn h (scope.key h (scope.value h c₀)) calls =
      attempts h scope (scope.value h c₀) calls := by
  refine List.filter_congr ?_
  intro c hc
  refine decide_eq_decide.mpr ?_
  obtain ⟨hemail, hip⟩ := hsha _ _ _ _ hc₀ (hcalls c hc)
  cases scope with
  | email =>
      constructor
      · rintro (heq | heq)
        · exact (hemail (createLoginKey_inj heq)).symm
        · exact absurd heq (emailKey_ne_ipKey _ _)
      · intro heq
        exact .inl (congrArg (emailKey h) heq.symm)
  | ip =>
      constructor
      · rintro (heq | heq)
        · exact absurd heq.symm (emailKey_ne_ipKey _ _)
        · exact (hip (createLoginKey_inj heq)).symm
      · intro heq
        exact .inr (congrArg (ipKey h) heq.symm)

/-- **The limit, over every run.**  The attempts for an account, and those from an address, fall
into windows of `AUTH_LOGIN_WINDOW_MS` from the first attempt outside the one before, and Redis
counts the last of them until it is over.  At most five calls of a window are accepted, and ten of
an interval of that length; and a call is accepted when it is one of the first five of its account's
window and of its address's. -/
theorem login_rate_limit {clock : ℤ} {es : List Event}
    (hr : run (step h) (init clock) es = some s) (hsha : NoCollision h es) :
    (∀ scope value,
      (∀ w ∈ windows Call.time AUTH_LOGIN_WINDOW_MS (attempts h scope value s.calls),
        (∃ c ∈ w.head?, w = (attempts h scope value s.calls).filter fun c' =>
          c.time ≤ c'.time ∧ c'.time < c.time + AUTH_LOGIN_WINDOW_MS) ∧
        w.countP Call.accepted ≤ 5) ∧
      (∀ t : ℤ, (attempts h scope value s.calls).countP
        (fun c => c.accepted ∧ t ≤ c.time ∧ c.time < t + AUTH_LOGIN_WINDOW_MS) ≤ 10) ∧
      (attempts h scope value s.calls ≠ [] → s.db (scope.key h value) =
        counterOf (current Call.time AUTH_LOGIN_WINDOW_MS (attempts h scope value s.calls)))) ∧
    ∀ i (hi : i < s.calls.length), s.calls[i].accepted = true ↔ ∀ scope : Scope,
      (current Call.time AUTH_LOGIN_WINDOW_MS
        (attempts h scope (scope.value h s.calls[i]) (s.calls.take (i + 1)))).length ≤ 5 := by
  have hi := inv_run hr
  have hcalls := mem_of_mem_calls hr
  have hpos : (0 : ℤ) < AUTH_LOGIN_WINDOW_MS := by decide
  refine ⟨?_, ?_⟩
  · intro scope value
    have hsorted : (attempts h scope value s.calls).Pairwise fun c c' => c.time ≤ c'.time :=
      hi.times.filter _
    by_cases hnone : attempts h scope value s.calls = []
    · rw [hnone]
      refine ⟨?_, fun _ => Nat.zero_le _, fun hne => absurd rfl hne⟩
      intro w hw
      rw [windows_nil] at hw
      cases hw
    · obtain ⟨c₀, hc₀⟩ := List.exists_mem_of_ne_nil _ hnone
      obtain ⟨hmem, hvalue⟩ := List.mem_filter.mp hc₀
      obtain rfl : scope.value h c₀ = value := of_decide_eq_true hvalue
      have hon := callsOn_eq_attempts hsha hcalls (hcalls c₀ hmem) scope
      have hwindows := hi.windows (scope.key h (scope.value h c₀))
      rw [hon] at hwindows
      refine ⟨?_, fun t => countP_interval_le hpos hsorted hwindows t, fun _ => ?_⟩
      · intro w hw
        exact ⟨windows_eq_filter hpos hsorted hw, hwindows w hw⟩
      · rw [hi.db, window, hon]
  · intro i hlen
    have hmem := hcalls _ (List.getElem_mem hlen)
    have htake : ∀ c ∈ s.calls.take (i + 1), .consume c.email c.ipAddress ∈ es :=
      fun c hc => hcalls c (List.mem_of_mem_take hc)
    have hemail := callsOn_eq_attempts hsha htake hmem .email
    have hip := callsOn_eq_attempts hsha htake hmem .ip
    simp only [Scope.key, Scope.value] at hemail hip
    rw [hi.accepted i hlen, Within, window, window, hemail, hip]
    constructor
    · rintro ⟨h₁, h₂⟩ scope
      cases scope with
      | email => exact h₁
      | ip => exact h₂
    · intro hall
      exact ⟨hall .email, hall .ip⟩

end

/-! ### Six logins -/

/-- What the hashing makes of the strings of `sixLogins`. -/
def hashing : Hashing where
  toLowerCase s := s.map Char.toLower
  sha256 s :=
    if s = "jane@example.com".toList then
      "8c87b489ce35cf2e2f39f80e282cb2e804932a56a213983eeeb428407d43b52d".toList
    else if s = "unknown".toList then
      "b23a6a8439c0dde5515893e7c90c1e3233b8616e634470f20dc4928bcf3609bc".toList
    else s

/-- One account in two spellings, from no known address. -/
def sixLogins : List Event :=
  [.consume "jane@example.com".toList none, .consume "Jane@example.com".toList none,
    .consume "jane@example.com".toList none, .tick 59999, .consume "jane@example.com".toList none,
    .consume "jane@example.com".toList none, .consume "jane@example.com".toList none]

theorem lower_of_mem_sixLogins {email : Str} {ip : Option Str}
    (he : .consume email ip ∈ sixLogins) :
    hashing.toLowerCase email = "jane@example.com".toList ∧ ip = none := by
  simp only [sixLogins, List.mem_cons, Event.consume.injEq, reduceCtorEq, false_or,
    List.not_mem_nil, or_false] at he
  rcases he with ⟨rfl, rfl⟩ | ⟨rfl, rfl⟩ | ⟨rfl, rfl⟩ | ⟨rfl, rfl⟩ | ⟨rfl, rfl⟩ | ⟨rfl, rfl⟩ <;>
    exact ⟨by decide +kernel, rfl⟩

theorem login_rate_limit_sixLogins :
    ∃ s, run (step hashing) (init 0) sixLogins = some s ∧ ∀ t : ℤ,
      (attempts hashing .email "jane@example.com".toList s.calls).countP
        (fun c => c.accepted ∧ t ≤ c.time ∧ c.time < t + AUTH_LOGIN_WINDOW_MS) ≤ 10 := by
  obtain ⟨s, hs⟩ : ∃ s, run (step hashing) (init 0) sixLogins = some s := ⟨_, rfl⟩
  refine ⟨s, hs, ((login_rate_limit hs ?_).1 .email _).2.1⟩
  intro email ip email' ip' he he'
  obtain ⟨hlower, rfl⟩ := lower_of_mem_sixLogins he
  obtain ⟨hlower', rfl⟩ := lower_of_mem_sixLogins he'
  rw [hlower, hlower']
  exact ⟨fun _ => rfl, fun _ => rfl⟩

end MediumClone.Auth.RateLimit
