import MediumClone.Auth.Sessions

/-!
# Auth — Provenance

Where the tokens come from that the guard lets through, in every run of `Sessions`.

A `Session` is a token that was answered to someone who gave its subject's password: by a
registration or a login, or by an update that was itself requested with such a token while it was
alive.  What a request holds at each of its awaits is enough to make its answer one (`Justified`),
however the requests interleave; and nothing that makes a session one is ever undone (`Extends`).
An upload has the stored row as long as it has the lock (`Locked`), so it changes the image only.

A registration signs its token before it looks whether the name is free.  It is a token for whoever
has the name, and safe because it is answered only after the user is saved (`session_provenance`).
-/

namespace MediumClone.Auth.Sessions
open Js Sys
open Users (UserRow UpdateUserRequest saveEntity)
open Filters (Exception HttpException)

/-! ### The assumptions on tokens -/

/-- Tokens of the service are verified until they expire, with their claims. -/
def JwtService.Sound (jwt : JwtService) (config : AuthConfig) : Prop :=
  ∀ now claims, claims.aud = config.audience → claims.iss = config.issuer →
    jwt.verifyAsync now (jwt.signAsync claims) =
      if now / 1000 < claims.exp then .ok claims.toJs else .error .other

section

variable {ι : Type*} (service : Service) (calls : ι → Request)

/-- No one can make a token that is verified: one that is presented has been answered. -/
def Unforged (s : State ι) : Event ι → Prop
  | .verifies c => ∀ authorization token claims, (calls c).guarded = some authorization →
    Gate.getToken authorization = some token →
    service.jwt.verifyAsync s.clock token = .ok claims →
    ∃ c' user, s.phase c' = .answered (.ok (.user user)) ∧ user.token = token
  | _ => True

/-! ### Sessions -/

/-- What nothing changes of a user. -/
structure SameAccount (u v : User) : Prop where
  username : v.username = u.username
  email : v.email = u.email
  passwordHash : v.passwordHash = u.passwordHash

def State.Knows (s : State ι) (u : User) : Prop := ∃ v ∈ s.users, SameAccount u v

/-- The claims are those of a token of the service, issued by now. -/
structure Issued (s : State ι) (claims : TokenClaims) : Prop where
  aud : claims.aud = service.config.audience
  iss : claims.iss = service.config.issuer
  exp : claims.exp = claims.iat + TOKEN_LIFETIME_SECONDS
  iat : claims.iat ≤ s.clock / 1000

/-- The request is answered with the token of the claims. -/
structure Gives (s : State ι) (c : ι) (claims : TokenClaims) : Prop where
  issued : Issued service s claims
  answered : ∃ user, s.phase c = .answered (.ok (.user user)) ∧
    user.token = service.jwt.signAsync claims

/-- The token of the claims is alive at this time. -/
structure TokenClaims.Alive (claims : TokenClaims) (now : ℤ) : Prop where
  iat : claims.iat ≤ now / 1000
  exp : now / 1000 < claims.exp

/-- The token of the claims was answered to someone who gave the password of their subject, or
renewed such a token. -/
inductive Session (s : State ι) : TokenClaims → Prop where
  | registered {c : ι} {request : RegisterRequest} {claims : TokenClaims} {user : User}
      (hc : calls c = .register request) (hgives : Gives service s c claims) (hu : user ∈ s.users)
      (hsub : user.username = claims.sub) (husername : user.username = request.username)
      (hemail : user.email = request.email)
      (hpassword : ∃ salt, user.passwordHash = service.hashPassword salt request.password) :
      Session s claims
  | loggedIn {c : ι} {request : AuthLoginRequest} {claims : TokenClaims} {user : User}
      (hc : calls c = .login request) (hgives : Gives service s c claims) (hu : user ∈ s.users)
      (hsub : user.username = claims.sub) (hemail : user.email = request.email)
      (hpassword : service.matchesPassword user.passwordHash request.password = true) :
      Session s claims
  | renewed {c : ι} {authorization : Option Str} {update : UpdateUserRequest}
      {parent claims : TokenClaims} {verifiedAt : ℤ}
      (hc : calls c = .updateCurrentUser authorization update) (hgives : Gives service s c claims)
      (hparent : Session s parent)
      (htoken : Gate.getToken authorization = some (service.jwt.signAsync parent))
      (halive : parent.Alive verifiedAt) (hsub : claims.sub = parent.sub)
      (hlater : verifiedAt / 1000 ≤ claims.iat) : Session s claims

/-- The guard let the request through, at the time, with the token of a session. -/
structure Admission (s : State ι) (c : ι) (verifiedAt : ℤ) (auth : JsValue)
    (claims : TokenClaims) : Prop where
  presented : ∃ authorization, (calls c).guarded = some authorization ∧
    Gate.getToken authorization = some (service.jwt.signAsync claims)
  session : Session service calls s claims
  alive : claims.Alive verifiedAt
  past : verifiedAt ≤ s.clock
  sub : subOf auth = claims.sub
  token : tokenOf auth = service.jwt.signAsync claims

/-- The request is made with the token of a session of the user. -/
def RequestedBy (s : State ι) (c : ι) (u : User) : Prop := ∃ authorization claims,
  (calls c).guarded = some authorization ∧
    Gate.getToken authorization = some (service.jwt.signAsync claims) ∧
    Session service calls s claims ∧ claims.sub = u.username

/-- The token is a new one for the subject of `auth`. -/
def Renewal (s : State ι) (verifiedAt : ℤ) (auth : JsValue) (token : Str) : Prop :=
  ∃ claims, token = service.jwt.signAsync claims ∧ Issued service s claims ∧
    claims.sub = subOf auth ∧ verifiedAt / 1000 ≤ claims.iat

/-- What a request holds. -/
def Justified (s : State ι) (c : ι) : Phase → Prop
  | .issued token => ∃ claims, token = service.jwt.signAsync claims ∧ Issued service s claims ∧
    ∀ request, calls c = .register request → claims.sub = request.username
  | .found user => ∀ request, calls c = .login request → ∀ u ∈ user,
    s.Knows u ∧ u.email = request.email
  | .matched user => ∀ request, calls c = .login request → s.Knows user ∧
    user.email = request.email ∧
    service.matchesPassword user.passwordHash request.password = true
  | .verifying verifiedAt verified => verifiedAt ≤ s.clock ∧ ∀ authorization token value,
    (calls c).guarded = some authorization → Gate.getToken authorization = some token →
    verified = .ok value → ∃ claims, token = service.jwt.signAsync claims ∧
      value = claims.toJs ∧ Session service calls s claims ∧ claims.Alive verifiedAt
  | .admitted verifiedAt auth => ∃ claims, Admission service calls s c verifiedAt auth claims
  | .renewed verifiedAt auth token =>
    (∃ claims, Admission service calls s c verifiedAt auth claims) ∧
      Renewal service s verifiedAt auth token
  | .updating verifiedAt auth token user =>
    (∃ claims, Admission service calls s c verifiedAt auth claims) ∧
      Renewal service s verifiedAt auth token ∧ user.username = subOf auth
  | .received verifiedAt auth => ∃ claims, Admission service calls s c verifiedAt auth claims
  | .locked verifiedAt auth user =>
    (∃ claims, Admission service calls s c verifiedAt auth claims) ∧ user.username = subOf auth
  | .answered (.ok (.user user)) => ∃ claims, user.token = service.jwt.signAsync claims ∧
    Session service calls s claims ∧ user.username = claims.sub
  | _ => True

/-- An upload that has its user has the lock of the row, and the row as it is stored. -/
def Locked (s : State ι) : Prop := ∀ c verifiedAt auth user,
  s.phase c = .locked verifiedAt auth user → s.lock user.username = some c ∧ user ∈ s.users

structure Inv (s : State ι) : Prop where
  justified : ∀ c, Justified service calls s c (s.phase c)
  locked : Locked s
  usernames : (s.users.map (·.username)).Nodup
  emails : (s.users.map (·.email)).Nodup

end

/-! ### What is never undone -/

section Extends

variable {ι : Type*} {service : Service} {calls : ι → Request} {s s' : State ι} {c : ι}
  {claims : TokenClaims} {u v w : User}

theorem SameAccount.refl (u : User) : SameAccount u u := ⟨rfl, rfl, rfl⟩

theorem SameAccount.trans (h : SameAccount u v) (h' : SameAccount v w) : SameAccount u w :=
  ⟨h'.username.trans h.username, h'.email.trans h.email, h'.passwordHash.trans h.passwordHash⟩

theorem State.knows_of_mem (h : u ∈ s.users) : s.Knows u := ⟨u, h, .refl u⟩

/-- Answers, accounts and the time stay. -/
structure Extends (s s' : State ι) : Prop where
  answered : ∀ c result, s.phase c = .answered result → s'.phase c = .answered result
  users : ∀ u ∈ s.users, s'.Knows u
  clock : s.clock ≤ s'.clock

theorem Extends.knows (h : Extends s s') (hu : s.Knows u) : s'.Knows u := by
  obtain ⟨v, hv, hsame⟩ := hu
  obtain ⟨w, hw, hsame'⟩ := h.users v hv
  exact ⟨w, hw, hsame.trans hsame'⟩

theorem Extends.issued (h : Extends s s') (hi : Issued service s claims) :
    Issued service s' claims :=
  ⟨hi.aud, hi.iss, hi.exp, hi.iat.trans (Int.ediv_le_ediv (by decide) h.clock)⟩

theorem Extends.gives (h : Extends s s') (hg : Gives service s c claims) :
    Gives service s' c claims := by
  obtain ⟨user, hp, htoken⟩ := hg.answered
  exact ⟨h.issued hg.issued, user, h.answered c _ hp, htoken⟩

theorem Extends.session (h : Extends s s') (hs : Session service calls s claims) :
    Session service calls s' claims := by
  induction hs with
  | registered hc hgives hu hsub husername hemail hpassword =>
      obtain ⟨v, hv, hsame⟩ := h.users _ hu
      exact .registered hc (h.gives hgives) hv (hsame.username.trans hsub)
        (hsame.username.trans husername) (hsame.email.trans hemail) (hsame.passwordHash ▸ hpassword)
  | loggedIn hc hgives hu hsub hemail hpassword =>
      obtain ⟨v, hv, hsame⟩ := h.users _ hu
      exact .loggedIn hc (h.gives hgives) hv (hsame.username.trans hsub)
        (hsame.email.trans hemail) (hsame.passwordHash ▸ hpassword)
  | renewed hc hgives _ htoken halive hsub hlater ih =>
      exact .renewed hc (h.gives hgives) ih htoken halive hsub hlater

theorem Extends.admission (h : Extends s s') {verifiedAt : ℤ} {auth : JsValue}
    (ha : Admission service calls s c verifiedAt auth claims) :
    Admission service calls s' c verifiedAt auth claims :=
  ⟨ha.presented, h.session ha.session, ha.alive, ha.past.trans h.clock, ha.sub, ha.token⟩

theorem Extends.renewal (h : Extends s s') {verifiedAt : ℤ} {auth : JsValue} {token : Str}
    (hn : Renewal service s verifiedAt auth token) : Renewal service s' verifiedAt auth token := by
  obtain ⟨claims, htoken, hissued, hsub, hlater⟩ := hn
  exact ⟨claims, htoken, h.issued hissued, hsub, hlater⟩

theorem Extends.justified (h : Extends s s') {phase : Phase}
    (hj : Justified service calls s c phase) : Justified service calls s' c phase := by
  match phase, hj with
  | .start, _ | .consumed, _ => trivial
  | .issued _, ⟨claims, htoken, hissued, hsub⟩ => exact ⟨claims, htoken, h.issued hissued, hsub⟩
  | .found _, hj =>
      intro request hc u hu
      exact ⟨h.knows (hj request hc u hu).1, (hj request hc u hu).2⟩
  | .matched _, hj =>
      intro request hc
      exact ⟨h.knows (hj request hc).1, (hj request hc).2⟩
  | .verifying _ _, ⟨hpast, hj⟩ =>
      refine ⟨hpast.trans h.clock, ?_⟩
      intro authorization token value hg htoken hvalue
      obtain ⟨claims, heq, hjs, hsession, halive⟩ := hj authorization token value hg htoken hvalue
      exact ⟨claims, heq, hjs, h.session hsession, halive⟩
  | .admitted _ _, ⟨claims, ha⟩ => exact ⟨claims, h.admission ha⟩
  | .renewed _ _ _, ⟨⟨claims, ha⟩, hn⟩ => exact ⟨⟨claims, h.admission ha⟩, h.renewal hn⟩
  | .updating _ _ _ _, ⟨⟨claims, ha⟩, hn, hname⟩ =>
      exact ⟨⟨claims, h.admission ha⟩, h.renewal hn, hname⟩
  | .received _ _, ⟨claims, ha⟩ => exact ⟨claims, h.admission ha⟩
  | .locked _ _ _, ⟨⟨claims, ha⟩, hname⟩ => exact ⟨⟨claims, h.admission ha⟩, hname⟩
  | .answered (.ok (.user _)), ⟨claims, htoken, hsession, hname⟩ =>
      exact ⟨claims, htoken, h.session hsession, hname⟩
  | .answered (.ok .noContent), _ | .answered (.error _), _ => trivial

/-- The subject of a session has an account. -/
theorem Session.known (hs : Session service calls s claims) :
    ∃ u ∈ s.users, u.username = claims.sub := by
  induction hs with
  | registered _ _ hu hsub => exact ⟨_, hu, hsub⟩
  | loggedIn _ _ hu hsub => exact ⟨_, hu, hsub⟩
  | renewed _ _ _ _ _ hsub _ ih => exact hsub ▸ ih

theorem Session.issued (hs : Session service calls s claims) : Issued service s claims := by
  cases hs with
  | registered _ hgives | loggedIn _ hgives | renewed _ hgives => exact hgives.issued

theorem Admission.requestedBy {verifiedAt : ℤ} {auth : JsValue}
    (ha : Admission service calls s c verifiedAt auth claims) (hu : u.username = subOf auth) :
    RequestedBy service calls s c u := by
  obtain ⟨authorization, hg, htoken⟩ := ha.presented
  exact ⟨authorization, claims, hg, htoken, ha.session, ha.sub.symm.trans hu.symm⟩

theorem Inv.justified_of (hi : Inv service calls s) {phase : Phase} (hp : s.phase c = phase) :
    Justified service calls s c phase :=
  hp ▸ hi.justified c

end Extends

/-! ### What the code finds -/

section Code

variable {ι : Type*} {service : Service} {s : State ι} {claims : TokenClaims} {u user : User}
  {users : List User} {username : Str}

theorem register_eq_ok {request : RegisterRequest} {salt : Str}
    (h : register service request salt users = .ok user) :
    (∀ u ∈ users, u.username ≠ request.username ∧ u.email ≠ request.email) ∧
      user.username = request.username ∧ user.email = request.email ∧
      user.passwordHash = service.hashPassword salt request.password := by
  simp only [register, List.any_eq_true, decide_eq_true_eq] at h
  split at h
  · cases h
  · rename_i husername
    split at h
    · cases h
    · rename_i hemail
      cases h
      refine ⟨fun u hu => ⟨?_, ?_⟩, rfl, rfl, rfl⟩
      · exact fun heq => husername ⟨u, hu, heq⟩
      · exact fun heq => hemail ⟨u, hu, heq⟩

theorem findByEmail_eq_some {email : Str} (h : s.findByEmail email = some u) :
    u ∈ s.users ∧ u.email = email :=
  ⟨List.mem_of_find?_eq_some h, by simpa using List.find?_some h⟩

/-- A save leaves every account what it is, and those of others altogether. -/
theorem exists_mem_saveUser (hu : u ∈ users) :
    ∃ v ∈ saveUser user users, SameAccount u v ∧
      (u.username = user.username → v.toUserRow = user.toUserRow) ∧
      (u.username ≠ user.username → v = u) := by
  refine ⟨_, List.mem_map_of_mem hu, ?_⟩
  split
  · exact ⟨⟨rfl, rfl, rfl⟩, fun _ => Users.saveEntity_eq _ _, fun hne => absurd ‹_› hne⟩
  · exact ⟨.refl u, fun heq => absurd heq ‹_›, fun _ => rfl⟩

theorem mem_saveUser_of_ne (hu : u ∈ users) (hne : u.username ≠ user.username) :
    u ∈ saveUser user users := by
  obtain ⟨v, hv, -, -, hsame⟩ := exists_mem_saveUser hu
  rwa [hsame hne] at hv

/-- It makes no account that was not there. -/
theorem exists_of_mem_saveUser {v : User} (hv : v ∈ saveUser user users) :
    ∃ u ∈ users, SameAccount u v := by
  obtain ⟨u, hu, rfl⟩ := List.mem_map.mp hv
  refine ⟨u, hu, ?_⟩
  split
  · exact ⟨rfl, rfl, rfl⟩
  · exact .refl u

theorem map_saveUser {β : Type*} (f : User → β)
    (hf : ∀ (u : User) (row : UserRow), f { u with toUserRow := row } = f u) :
    (saveUser user users).map f = users.map f := by
  rw [saveUser, List.map_map]
  refine List.map_congr_left fun u _ => ?_
  rw [Function.comp_apply]
  split
  · exact hf u _
  · rfl

/-- What the guard gives to a request that it lets through. -/
theorem auth_of_canActivate {verified : Except Gate.Thrown JsValue}
    {client : Gate.TokenDenyListClient} {authorization : Option Str} {admitted : Bool}
    {request : Gate.Request} {auth : JsValue}
    (h : Gate.AuthTokenGuard.canActivate ⟨some fun _ => verified, some client⟩
      ⟨authorization, none⟩ = (.ok admitted, request)) (hauth : request.auth = some auth) :
    ∃ token claims, Gate.getToken authorization = some token ∧ verified = .ok claims ∧
      Gate.TokenClaims claims ∧ auth = Gate.authOf token claims := by
  by_cases hex : ∃ token claims,
      Gate.Admissible (fun _ => verified) client ⟨authorization, none⟩ token claims
  · obtain ⟨token, claims, hadm⟩ := hex
    rw [Gate.canActivate_of_admissible hadm] at h
    cases h
    cases hauth
    exact ⟨token, claims, (Gate.admissible_iff.mp hadm).1, hadm.verified, hadm.wellFormed, rfl⟩
  · obtain ⟨e, -, he⟩ := Gate.canActivate_of_not fun token claims hadm => hex ⟨token, claims, hadm⟩
    rw [he] at h
    cases h

theorem subOf_authOf {token : Str} (h : Gate.TokenClaims claims.toJs) :
    subOf (Gate.authOf token claims.toJs) = claims.sub := by
  rw [subOf, Gate.get_authOf h (by decide)]
  rfl

theorem tokenOf_authOf (token : Str) (claims : JsValue) :
    tokenOf (Gate.authOf token claims) = token := by
  rw [tokenOf, Gate.authOf, JsValue.get_setProperty_self]

/-- A new token is issued, for the subject. -/
theorem exists_issued (s : State ι) (service : Service) (tokenId username : Str) : ∃ claims,
    issueToken service s.clock tokenId username = service.jwt.signAsync claims ∧
      Issued service s claims ∧ claims.sub = username ∧ claims.iat = s.clock / 1000 :=
  ⟨_, rfl, ⟨rfl, rfl, rfl, le_rfl⟩, rfl, rfl⟩

end Code

/-! ### Steps -/

section Steps

variable {ι : Type*} [DecidableEq ι] {service : Service} {calls : ι → Request} {s s' : State ι}
  {e : Event ι} {c : ι} {phase : Phase}

theorem Extends.of_set (hphase : s'.phase = Function.update s.phase c phase)
    (hopen : ∀ result, s.phase c ≠ .answered result) (husers : ∀ u ∈ s.users, s'.Knows u)
    (hclock : s.clock ≤ s'.clock) : Extends s s' := by
  refine ⟨?_, husers, hclock⟩
  intro c' result hp
  rw [hphase, Function.update_of_ne]
  · exact hp
  · rintro rfl
    exact hopen result hp

theorem Transition.extends (h : Transition service calls s e s') : Extends s s' := by
  have hsame : ∀ u ∈ s.users, s.Knows u := fun u hu => State.knows_of_mem hu
  cases h with
  | ticks h => exact ⟨fun _ _ hp => hp, hsame, h⟩
  | throws hopen hclock _ => exact .of_set rfl hopen hsame hclock.ge
  | registers _ hp _ =>
      refine .of_set rfl (by simp [hp]) ?_ le_rfl
      exact fun u hu => State.knows_of_mem (List.mem_append_left _ hu)
  | consumes _ hp hclock => exact .of_set rfl (by simp [hp]) hsame hclock.ge
  | saves _ hp _ | commits _ hp =>
      refine .of_set rfl (by simp [hp]) ?_ le_rfl
      intro u hu
      obtain ⟨v, hv, hsame, -⟩ := exists_mem_saveUser hu
      exact ⟨v, hv, hsame⟩
  | issues _ hp | findsByEmail _ hp | compares _ hp _ | logsIn _ hp | verifies _ hp _
  | admits _ hp _ _ | shows _ hp _ | renews _ hp | findsByUsername _ hp _ | logsOut _ hp
  | receives _ hp | locks _ hp _ _ =>
      exact .of_set rfl (by simp [hp]) hsame le_rfl

/-- It is enough to justify the request that moves. -/
theorem Inv.justified_set (hi : Inv service calls s) (hext : Extends s s')
    (hphase : s'.phase = Function.update s.phase c phase)
    (hj : Justified service calls s' c phase) :
    ∀ c', Justified service calls s' c' (s'.phase c') := by
  intro c'
  rw [hphase]
  by_cases hc : c' = c
  · subst hc
    rwa [Function.update_self]
  · rw [Function.update_of_ne hc]
    exact hext.justified (hi.justified c')

/-- The new answer makes the token that of a session. -/
theorem gives_of_answer {claims : TokenClaims} {user : SerializedUser}
    (hphase : s'.phase = Function.update s.phase c (.answered (.ok (.user user))))
    (hissued : Issued service s' claims) (htoken : user.token = service.jwt.signAsync claims) :
    Gives service s' c claims :=
  ⟨hissued, user, by rw [hphase, Function.update_self], htoken⟩

theorem justified_step (hjwt : service.jwt.Sound service.config) (hi : Inv service calls s)
    (hu : Unforged service calls s e) (h : Transition service calls s e s') :
    ∀ c, Justified service calls s' c (s'.phase c) := by
  have hext := h.extends
  cases h with
  | ticks _ => exact fun c => hext.justified (hi.justified c)
  | throws _ _ _ => exact hi.justified_set hext rfl trivial
  | @issues c tokenId user hc hp =>
      obtain ⟨claims, htoken, hissued, hsub, -⟩ :=
        exists_issued s service tokenId user.username
      refine hi.justified_set hext rfl ⟨claims, htoken, hext.issued hissued, ?_⟩
      intro request hc'
      cases hc.symm.trans hc'
      exact hsub
  | @registers c salt request token user hc hp hregister =>
      obtain ⟨-, husername, hemail, hhash⟩ := register_eq_ok hregister
      obtain ⟨claims, htoken, hissued, hsub⟩ := hi.justified_of hp
      have hname : user.username = claims.sub := husername.trans (hsub request hc).symm
      refine hi.justified_set hext rfl ⟨claims, htoken, ?_, hname⟩
      exact .registered hc (gives_of_answer rfl (hext.issued hissued) htoken)
        (List.mem_append_right _ (List.mem_singleton_self _)) hname husername hemail ⟨salt, hhash⟩
  | consumes _ _ _ => exact hi.justified_set hext rfl trivial
  | @findsByEmail c request hc hp =>
      refine hi.justified_set hext rfl ?_
      intro request' hc' u hu
      cases hc.symm.trans hc'
      obtain ⟨hmem, hemail⟩ := findByEmail_eq_some hu
      exact ⟨State.knows_of_mem hmem, hemail⟩
  | @compares c request user hc hp hmatches =>
      refine hi.justified_set hext rfl ?_
      intro request' hc'
      cases hc.symm.trans hc'
      obtain ⟨hknows, hemail⟩ := hi.justified_of hp request hc user rfl
      exact ⟨hknows, hemail, hmatches⟩
  | @logsIn c tokenId request user hc hp =>
      obtain ⟨⟨v, hv, hsame⟩, hemail, hmatches⟩ := hi.justified_of hp request hc
      obtain ⟨claims, htoken, hissued, hsub, -⟩ :=
        exists_issued s service tokenId user.username
      refine hi.justified_set hext rfl ⟨claims, htoken, ?_, hsub.symm⟩
      exact .loggedIn hc (gives_of_answer rfl (hext.issued hissued) htoken) hv
        (hsame.username.trans hsub.symm) (hsame.email.trans hemail) (hsame.passwordHash ▸ hmatches)
  | @verifies c authorization token hg hp htoken =>
      refine hi.justified_set hext rfl ⟨le_rfl, ?_⟩
      intro authorization' token' value hg' htoken' hvalue
      cases hg.symm.trans hg'
      cases htoken.symm.trans htoken'
      -- the token was answered, so it is that of a session
      obtain ⟨c', user, hp', rfl⟩ := hu authorization token value hg htoken hvalue
      obtain ⟨claims, hsign, hsession, -⟩ := hi.justified_of hp'
      have hissued := hsession.issued
      rw [hsign, hjwt _ _ hissued.aud hissued.iss] at hvalue
      split at hvalue
      · rename_i halive
        cases hvalue
        exact ⟨claims, hsign, rfl, hext.session hsession, hissued.iat, halive⟩
      · cases hvalue
  | @admits c reachable authorization verifiedAt verified admitted request auth hg hp hguard
      hauth =>
      obtain ⟨token, value, htoken, rfl, hwell, rfl⟩ := auth_of_canActivate hguard hauth
      obtain ⟨hpast, hj⟩ := hi.justified_of hp
      obtain ⟨claims, rfl, rfl, hsession, halive⟩ := hj authorization token value hg htoken rfl
      refine hi.justified_set hext rfl ⟨claims, ?_⟩
      exact ⟨⟨authorization, hg, htoken⟩, hext.session hsession, halive, hpast.trans hext.clock,
        subOf_authOf hwell, tokenOf_authOf _ _⟩
  | @shows c authorization verifiedAt auth user hc hp hfind =>
      obtain ⟨claims, hadm⟩ := hi.justified_of hp
      refine hi.justified_set hext rfl ⟨claims, hadm.token, hext.session hadm.session, ?_⟩
      exact (findByUsername_eq_some hfind).2.trans hadm.sub
  | @renews c tokenId authorization update verifiedAt auth hc hp =>
      obtain ⟨parent, hadm⟩ := hi.justified_of hp
      obtain ⟨claims, htoken, hissued, hsub, hiat⟩ := exists_issued s service tokenId (subOf auth)
      refine hi.justified_set hext rfl ⟨⟨parent, hext.admission hadm⟩, claims, htoken,
        hext.issued hissued, hsub, ?_⟩
      rw [hiat]
      exact Int.ediv_le_ediv (by decide) hadm.past
  | @findsByUsername c authorization update verifiedAt auth token user hc hp hfind =>
      obtain ⟨⟨parent, hadm⟩, hrenewal⟩ := hi.justified_of hp
      exact hi.justified_set hext rfl ⟨⟨parent, hext.admission hadm⟩, hext.renewal hrenewal,
        (findByUsername_eq_some hfind).2⟩
  | @saves c authorization update verifiedAt auth token user hc hp _ =>
      obtain ⟨⟨parent, hadm⟩, ⟨claims, htoken, hissued, hsub, hlater⟩, hname⟩ :=
        hi.justified_of hp
      obtain ⟨authorization', hg, hpresented⟩ := hadm.presented
      rw [hc] at hg
      cases hg
      refine hi.justified_set hext rfl ⟨claims, htoken, ?_, hname.trans hsub.symm⟩
      exact .renewed hc (gives_of_answer rfl (hext.issued hissued) htoken)
        (hext.session hadm.session) hpresented hadm.alive (hsub.trans hadm.sub) hlater
  | logsOut _ _ => exact hi.justified_set hext rfl trivial
  | @receives c authorization file verifiedAt auth hc hp =>
      obtain ⟨claims, hadm⟩ := hi.justified_of hp
      exact hi.justified_set hext rfl ⟨claims, hext.admission hadm⟩
  | @locks c authorization file verifiedAt auth currentUser hc hp hl hfind =>
      obtain ⟨claims, hadm⟩ := hi.justified_of hp
      exact hi.justified_set hext rfl ⟨⟨claims, hext.admission hadm⟩,
        (findByUsername_eq_some hfind).2⟩
  | @commits c attachmentId authorization file verifiedAt auth currentUser hc hp =>
      -- the token that was presented is answered
      obtain ⟨⟨claims, hadm⟩, hname⟩ := hi.justified_of hp
      exact hi.justified_set hext rfl ⟨claims, hadm.token, hext.session hadm.session,
        hname.trans hadm.sub⟩

/-! ### The locks of uploads -/

theorem Locked.of_set (hl : Locked s) (hphase : s'.phase = Function.update s.phase c phase)
    (hnew : ∀ verifiedAt auth user, phase = .locked verifiedAt auth user →
      s'.lock user.username = some c ∧ user ∈ s'.users)
    (hold : ∀ c' user, c' ≠ c → s.lock user.username = some c' → user ∈ s.users →
      s'.lock user.username = some c' ∧ user ∈ s'.users) : Locked s' := by
  intro c' verifiedAt auth user hp
  rw [hphase] at hp
  by_cases hc : c' = c
  · subst hc
    rw [Function.update_self] at hp
    exact hnew verifiedAt auth user hp
  · rw [Function.update_of_ne hc] at hp
    obtain ⟨hlock, hu⟩ := hl c' verifiedAt auth user hp
    exact hold c' user hc hlock hu

/-- No one else writes the row of a user that an upload has locked. -/
theorem locked_step (hl : Locked s) (h : Transition service calls s e s') : Locked s' := by
  cases h with
  | ticks _ => exact hl
  | throws _ _ hlock =>
      exact hl.of_set rfl (by simp) fun c' user hc hlocked hu => ⟨hlock c' _ hc hlocked, hu⟩
  | registers _ _ _ =>
      exact hl.of_set rfl (by simp) fun _ _ _ hlocked hu =>
        ⟨hlocked, List.mem_append_left _ hu⟩
  | saves _ _ hfree =>
      -- an update waits for the lock
      refine hl.of_set rfl (by simp) ?_
      intro c' user hc hlocked hu
      refine ⟨hlocked, mem_saveUser_of_ne hu ?_⟩
      intro heq
      rw [heq, hfree] at hlocked
      cases hlocked
  | @locks c _ _ _ _ currentUser _ _ hfree hfind =>
      refine hl.of_set rfl ?_ ?_
      · intro verifiedAt auth user hp
        cases hp
        exact ⟨Function.update_self .., (findByUsername_eq_some hfind).1⟩
      · intro c' user hc hlocked hu
        refine ⟨?_, hu⟩
        have hne : user.username ≠ currentUser.username := by
          intro heq
          rw [heq, hfree] at hlocked
          cases hlocked
        exact (Function.update_of_ne hne ..).trans hlocked
  | @commits c _ _ _ _ _ currentUser _ hp =>
      -- the lock is its own, so the others have other rows
      refine hl.of_set rfl (by simp) ?_
      intro c' user hc hlocked hu
      refine ⟨lock_unlock_of_ne hc hlocked, mem_saveUser_of_ne hu ?_⟩
      intro heq
      have hown : s.lock user.username = some c := heq ▸ (hl _ _ _ _ hp).1
      exact hc (Option.some.inj (hlocked.symm.trans hown))
  | _ => exact hl.of_set rfl (by simp) fun _ _ _ hlocked hu => ⟨hlocked, hu⟩

/-! ### Every run -/

/-- What a registration checks to be free stays without duplicates, and a save leaves it alone. -/
theorem nodup_step {f : User → Str} (hrow : ∀ (u : User) (row : UserRow),
      f { u with toUserRow := row } = f u)
    (hfree : ∀ request salt user, register service request salt s.users = .ok user →
      ∀ u ∈ s.users, f u ≠ f user) (hn : (s.users.map f).Nodup)
    (h : Transition service calls s e s') : (s'.users.map f).Nodup := by
  cases h with
  | registers _ _ hregister =>
      rw [List.map_append, List.map_singleton]
      refine List.nodup_append.mpr ⟨hn, List.nodup_singleton _, ?_⟩
      intro a ha b hb heq
      obtain ⟨u, hu, rfl⟩ := List.mem_map.mp ha
      exact hfree _ _ _ hregister u hu (heq.trans (List.mem_singleton.mp hb))
  | saves _ _ _ | commits _ _ =>
      rw [map_saveUser f hrow]
      exact hn
  | _ => exact hn

theorem Inv.step (hjwt : service.jwt.Sound service.config) (hi : Inv service calls s)
    (hu : Unforged service calls s e) (hs : Sessions.step service calls s e = some s') :
    Inv service calls s' := by
  have h := step_transition hs
  refine ⟨justified_step hjwt hi hu h, locked_step hi.locked h,
    nodup_step (fun _ _ => rfl) ?_ hi.usernames h,
    nodup_step (fun _ _ => rfl) ?_ hi.emails h⟩
  · intro request salt user hregister u hu
    obtain ⟨hfree, husername, -⟩ := register_eq_ok hregister
    exact husername ▸ (hfree u hu).1
  · intro request salt user hregister u hu
    obtain ⟨hfree, -, hemail, -⟩ := register_eq_ok hregister
    exact hemail ▸ (hfree u hu).2

omit [DecidableEq ι] in
theorem inv_init (clock : ℤ) : Inv service calls (init ι clock) := by
  refine ⟨fun _ => trivial, ?_, List.nodup_nil, List.nodup_nil⟩
  intro c verifiedAt auth user hp
  cases hp

theorem inv_run (hjwt : service.jwt.Sound service.config) {clock : ℤ} {es : List (Event ι)}
    (hr : run (Sessions.step service calls) (init ι clock) es = some s)
    (hu : Meets (Sessions.step service calls) (Unforged service calls) (init ι clock) es) :
    Inv service calls s :=
  run_invariant (fun _ _ _ hi hu hs => hi.step hjwt hu hs) hu (inv_init clock) hr

/-- **Where tokens come from.**  In every run of interleaved requests, if a token that is presented
and verified was answered to someone: a request is past the guard only with the token of a session,
for the subject of this session, who has an account, and within the token's lifetime; and a user is
answered only with a token of a session of their own. -/
theorem session_provenance (hjwt : service.jwt.Sound service.config) {clock : ℤ}
    {es : List (Event ι)}
    (hr : run (Sessions.step service calls) (init ι clock) es = some s)
    (hu : Meets (Sessions.step service calls) (Unforged service calls) (init ι clock) es) :
    (∀ c verifiedAt auth, s.phase c = .admitted verifiedAt auth → ∃ authorization claims,
      (calls c).guarded = some authorization ∧
      Gate.getToken authorization = some (service.jwt.signAsync claims) ∧
      Session service calls s claims ∧ claims.iat ≤ verifiedAt / 1000 ∧
      verifiedAt / 1000 < claims.iat + TOKEN_LIFETIME_SECONDS ∧
      ∃ user, s.findByUsername (subOf auth) = some user ∧ user.username = claims.sub) ∧
    ∀ c user, s.phase c = .answered (.ok (.user user)) → ∃ claims,
      user.token = service.jwt.signAsync claims ∧ Session service calls s claims ∧
      user.username = claims.sub := by
  have hi := inv_run hjwt hr hu
  refine ⟨?_, fun c user hp => hi.justified_of hp⟩
  intro c verifiedAt auth hp
  obtain ⟨claims, hadm⟩ := hi.justified_of hp
  obtain ⟨authorization, hg, htoken⟩ := hadm.presented
  obtain ⟨u, hu, husername⟩ := hadm.session.known
  refine ⟨authorization, claims, hg, htoken, hadm.session, hadm.alive.iat, ?_, ?_⟩
  · rw [← hadm.session.issued.exp]
    exact hadm.alive.exp
  · -- the account was there when the session began, and stays
    cases hfind : s.findByUsername (subOf auth) with
    | none =>
        have hnone := List.find?_eq_none.mp hfind u hu
        simp [husername, hadm.sub] at hnone
    | some user => exact ⟨user, rfl, (findByUsername_eq_some hfind).2.trans hadm.sub⟩

/-- **Only the owner changes an account.**  In a state that such a run reaches, a step leaves every
account its username, email and password hash, and its profile too, unless it is the save of an
update or the commit of an upload that was requested with the token of a session of its user: an
upload then changes the image alone.  A user who was not there is one that a registration saves,
whose username and email no one had. -/
theorem account_integrity (hjwt : service.jwt.Sound service.config) {clock : ℤ}
    {es : List (Event ι)}
    (hr : run (Sessions.step service calls) (init ι clock) es = some s)
    (hu : Meets (Sessions.step service calls) (Unforged service calls) (init ι clock) es)
    (hs : Sessions.step service calls s e = some s') :
    (∀ u ∈ s.users, ∃ v ∈ s'.users, SameAccount u v ∧ (v.toUserRow = u.toUserRow ∨
      ∃ c, RequestedBy service calls s c u ∧
        ((∃ authorization update row, e = .saves c ∧
          calls c = .updateCurrentUser authorization update ∧ v.toUserRow = update.assign row) ∨
        ∃ authorization file attachmentId, e = .commits c attachmentId ∧
          calls c = .uploadAvatar authorization file ∧
          v.toUserRow = (Users.Call.uploadAvatar attachmentId).run u.toUserRow))) ∧
    ∀ v ∈ s'.users, (∃ u ∈ s.users, SameAccount u v) ∨ ∃ c salt request, e = .registers c salt ∧
      calls c = .register request ∧ v.username = request.username ∧ v.email = request.email ∧
      v.passwordHash = service.hashPassword salt request.password ∧
      ∀ u ∈ s.users, u.username ≠ v.username ∧ u.email ≠ v.email := by
  have hi := inv_run hjwt hr hu
  cases step_transition hs with
  | @registers c salt request token user hc hp hregister =>
      obtain ⟨hfree, husername, hemail, hhash⟩ := register_eq_ok hregister
      refine ⟨fun u hu => ⟨u, List.mem_append_left _ hu, .refl u, .inl rfl⟩, ?_⟩
      intro v hv
      rcases List.mem_append.mp hv with hv | hv
      · exact .inl ⟨v, hv, .refl v⟩
      · obtain rfl := List.mem_singleton.mp hv
        refine .inr ⟨c, salt, request, rfl, hc, husername, hemail, hhash, ?_⟩
        rw [husername, hemail]
        exact hfree
  | @saves c authorization update verifiedAt auth token user hc hp hl =>
      obtain ⟨⟨claims, hadm⟩, -, hname⟩ := hi.justified_of hp
      refine ⟨?_, fun v hv => .inl (exists_of_mem_saveUser hv)⟩
      intro u hu
      obtain ⟨v, hv, hsame, hrow, hother⟩ := exists_mem_saveUser hu
      refine ⟨v, hv, hsame, ?_⟩
      by_cases heq : u.username = user.username
      · refine .inr ⟨c, hadm.requestedBy (heq.trans hname), .inl ?_⟩
        exact ⟨authorization, update, user.toUserRow, rfl, hc, hrow heq⟩
      · exact .inl (congrArg User.toUserRow (hother heq))
  | @commits c attachmentId authorization file verifiedAt auth currentUser hc hp =>
      obtain ⟨⟨claims, hadm⟩, hname⟩ := hi.justified_of hp
      refine ⟨?_, fun v hv => .inl (exists_of_mem_saveUser hv)⟩
      intro u hu
      obtain ⟨v, hv, hsame, hrow, hother⟩ := exists_mem_saveUser hu
      refine ⟨v, hv, hsame, ?_⟩
      by_cases heq : u.username = currentUser.username
      · -- the row under the lock is the stored one
        have hcurrent : u = currentUser :=
          List.inj_on_of_nodup_map hi.usernames hu (hi.locked _ _ _ _ hp).2 heq
        refine .inr ⟨c, hadm.requestedBy (heq.trans hname), .inr ?_⟩
        exact ⟨authorization, file, attachmentId, rfl, hc, hcurrent ▸ hrow heq⟩
      · exact .inl (congrArg User.toUserRow (hother heq))
  | _ =>
      exact ⟨fun u hu => ⟨u, hu, .refl u, .inl rfl⟩, fun v hv => .inl ⟨v, hv, .refl v⟩⟩

end Steps

/-! ### A registration and its token -/

/-- A field of a token: each character after a dash, and a dot at the end. -/
def encodeField : Str → Str
  | [] => ['.']
  | c :: s => '-' :: c :: encodeField s

def decodeField : Str → Option (Str × Str)
  | '.' :: rest => some ([], rest)
  | '-' :: c :: rest => (decodeField rest).map fun x => (c :: x.1, x.2)
  | _ => none

theorem decodeField_encodeField (s rest : Str) :
    decodeField (encodeField s ++ rest) = some (s, rest) := by
  induction s with
  | nil => rfl
  | cons c s ih => simp [encodeField, decodeField, ih]

def ofInt (z : ℤ) : Str := (if z < 0 then '-' else '+') :: Nat.toDigits 10 z.natAbs

def toInt : Str → ℤ
  | '-' :: digits => -(Nat.ofDigitChars 10 digits 0 : ℤ)
  | _ :: digits => Nat.ofDigitChars 10 digits 0
  | [] => 0

theorem toInt_ofInt (z : ℤ) : toInt (ofInt z) = z := by
  by_cases hz : z < 0
  · simp [ofInt, hz, toInt, abs_of_neg]
  · simp [ofInt, hz, toInt, abs_of_nonneg (Int.not_lt.mp hz)]

def sampleConfig : AuthConfig := ⟨"web".toList, "api".toList⟩

/-- Tokens that are the text of their claims. -/
def sampleJwt : JwtService where
  signAsync claims := encodeField claims.aud ++ (encodeField (ofInt claims.exp) ++
    (encodeField (ofInt claims.iat) ++ (encodeField claims.iss ++
      (encodeField claims.jti ++ encodeField claims.sub))))
  verifyAsync now token :=
    match (do
      let (aud, rest) ← decodeField token
      let (exp, rest) ← decodeField rest
      let (iat, rest) ← decodeField rest
      let (iss, rest) ← decodeField rest
      let (jti, rest) ← decodeField rest
      let (sub, _) ← decodeField rest
      pure (TokenClaims.mk aud (toInt exp) (toInt iat) iss jti sub)) with
    | some claims =>
      if claims.aud = sampleConfig.audience ∧ claims.iss = sampleConfig.issuer ∧
        now / 1000 < claims.exp then .ok claims.toJs else .error .other
    | none => .error .other

theorem sampleJwt_sound : sampleJwt.Sound sampleConfig := by
  rintro now ⟨aud, exp, iat, iss, jti, sub⟩ haud hiss
  dsimp only at haud hiss
  subst haud hiss
  have hlast : decodeField (encodeField sub) = some (sub, []) := by
    have h := decodeField_encodeField sub []
    rwa [List.append_nil] at h
  simp [sampleJwt, decodeField_encodeField, hlast, toInt_ofInt]

def sampleService : Service where
  config := sampleConfig
  jwt := sampleJwt
  hashing := ⟨id, id⟩
  hashPassword salt password := salt ++ '$' :: password
  matchesPassword hash password := hash.dropWhile (· ≠ '$') = '$' :: password

/-- The token of the registration below. -/
def sampleToken : Str := issueToken sampleService 5000 "6f9619ff".toList "jane".toList

/-- Someone registers, changes their bio, and sends an avatar with the token that answers that. -/
def sampleRequests : ℕ → Request
  | 0 => .register ⟨"jane@example.com".toList, "jane".toList, "long enough".toList⟩
  | 1 => .updateCurrentUser (some ("Token ".toList ++ sampleToken)) ⟨some (some "hi".toList), none⟩
  | _ => .uploadAvatar (some ("Token ".toList ++
      issueToken sampleService 9000 "b5f3a3c4".toList "jane".toList)) (.ok (some [0xff, 0xd8, 0xff]))

/-- As far as the change is about to be saved. -/
def sampleUpdate : List (Event ℕ) :=
  [.tick 5000, .issues 0 "6f9619ff".toList, .registers 0 "salt".toList, .tick 9000, .verifies 1,
    .looksUp 1 true, .issues 1 "b5f3a3c4".toList, .findsByUsername 1]

def sampleRun : List (Event ℕ) := sampleUpdate ++ [.saves 1, .verifies 2, .looksUp 2 true]

/-- As far as the avatar is about to be committed. -/
def sampleUpload : List (Event ℕ) := sampleRun ++ [.receives 2, .locks 2]

/-- Whoever presents the token of an answer has not forged it. -/
theorem unforged_of_answered {ι : Type*} {service : Service} {calls : ι → Request} {s : State ι}
    {c c' : ι} {authorization : Option Str} {user : SerializedUser}
    (hg : (calls c).guarded = some authorization)
    (htoken : Gate.getToken authorization = some user.token)
    (hp : s.phase c' = .answered (.ok (.user user))) : Unforged service calls s (.verifies c) := by
  intro authorization' token claims hg' htoken' _
  cases hg.symm.trans hg'
  cases htoken.symm.trans htoken'
  exact ⟨c', user, hp, rfl⟩

theorem unforged_sampleUpload : Meets (Sessions.step sampleService sampleRequests)
    (Unforged sampleService sampleRequests) (init ℕ 0) sampleUpload := by
  refine .of_step trivial rfl <| .of_step trivial rfl <| .of_step trivial rfl <|
    .of_step trivial rfl <| .of_step (@unforged_of_answered _ _ _ _ 1 0 _ _ rfl rfl rfl) rfl <|
    .of_step trivial rfl <| .of_step trivial rfl <| .of_step trivial rfl <| .of_step trivial rfl <|
    .of_step (@unforged_of_answered _ _ _ _ 2 1 _ _ rfl rfl rfl) rfl <| .of_step trivial rfl <|
    .of_step trivial rfl <| .of_step trivial rfl trivial

theorem unforged_sampleRun : Meets (Sessions.step sampleService sampleRequests)
    (Unforged sampleService sampleRequests) (init ℕ 0) sampleRun :=
  .of_append unforged_sampleUpload

theorem exists_sampleRun : ∃ s, run (Sessions.step sampleService sampleRequests) (init ℕ 0)
    sampleRun = some s ∧ ∃ auth, s.phase 2 = .admitted 9000 auth :=
  ⟨_, rfl, _, rfl⟩

theorem session_provenance_sample : ∃ s, run (Sessions.step sampleService sampleRequests)
      (init ℕ 0) sampleRun = some s ∧ ∃ auth claims, s.phase 2 = .admitted 9000 auth ∧
    Session sampleService sampleRequests s claims ∧
    (9000 : ℤ) / 1000 < claims.iat + TOKEN_LIFETIME_SECONDS := by
  obtain ⟨s, hs, auth, hp⟩ := exists_sampleRun
  obtain ⟨_, claims, -, -, hsession, -, hexp, -⟩ :=
    (session_provenance sampleJwt_sound hs unforged_sampleRun).1 2 9000 auth hp
  exact ⟨s, hs, auth, claims, hp, hsession, hexp⟩

theorem exists_sampleUpdate : ∃ s s', run (Sessions.step sampleService sampleRequests) (init ℕ 0)
      sampleUpdate = some s ∧ Sessions.step sampleService sampleRequests s (.saves 1) = some s' ∧
    s.users.map (·.bio) = [none] ∧ s'.users.map (·.bio) = [some "hi".toList] :=
  ⟨_, _, rfl, rfl, rfl, rfl⟩

/-- The id of the avatar's attachment. -/
def sampleId : Str := "3f2c".toList

theorem exists_sampleUpload : ∃ s s', run (Sessions.step sampleService sampleRequests) (init ℕ 0)
      sampleUpload = some s ∧
    Sessions.step sampleService sampleRequests s (.commits 2 sampleId) = some s' ∧
    s.users.map (·.image) = [none] ∧
    s'.users.map (·.image) = [some ("/api/files/".toList ++ sampleId)] :=
  ⟨_, _, rfl, rfl, rfl, rfl⟩

/-- The one user of a state, whose field a step changes. -/
theorem changed_of_map {f : User → Option Str} {x y : Option Str} {u v : User} {users : List User}
    (hu : u ∈ users) (hx : users.map f = [x]) {users' : List User} (hv : v ∈ users')
    (hy : users'.map f = [y]) (hne : x ≠ y) : f v ≠ f u := by
  have hu' := List.mem_map_of_mem (f := f) hu
  have hv' := List.mem_map_of_mem (f := f) hv
  rw [hx, List.mem_singleton] at hu'
  rw [hy, List.mem_singleton] at hv'
  rw [hu', hv']
  exact hne.symm

theorem account_integrity_sample :
    (∃ s s', run (Sessions.step sampleService sampleRequests) (init ℕ 0) sampleUpdate = some s ∧
      Sessions.step sampleService sampleRequests s (.saves 1) = some s' ∧
      ∃ u ∈ s.users, RequestedBy sampleService sampleRequests s 1 u) ∧
    ∃ s s', run (Sessions.step sampleService sampleRequests) (init ℕ 0) sampleUpload = some s ∧
      Sessions.step sampleService sampleRequests s (.commits 2 sampleId) = some s' ∧
      ∃ u ∈ s.users, RequestedBy sampleService sampleRequests s 2 u ∧
        ∃ v ∈ s'.users, v.toUserRow = (Users.Call.uploadAvatar sampleId).run u.toUserRow := by
  have hone : ∀ {s : State ℕ} {f : User → Option Str} {x : Option Str}, s.users.map f = [x] →
      ∃ u, u ∈ s.users := by
    intro s f x h
    exact List.exists_mem_of_ne_nil _ fun hnil => by simp [hnil] at h
  constructor
  · obtain ⟨s, s', hr, hs, hbio, hbio'⟩ := exists_sampleUpdate
    obtain ⟨u, hu⟩ := hone hbio
    have hunforged := Meets.of_append unforged_sampleRun
    obtain ⟨v, hv, -, hrow | ⟨c, hc, ⟨_, _, _, he, -⟩ | ⟨_, _, _, he, -⟩⟩⟩ :=
      (account_integrity sampleJwt_sound hr hunforged hs).1 u hu
    · exact absurd (congrArg UserRow.bio hrow) (changed_of_map hu hbio hv hbio' (by simp))
    · cases he
      exact ⟨s, s', hr, hs, u, hu, hc⟩
    · cases he
  · obtain ⟨s, s', hr, hs, himage, himage'⟩ := exists_sampleUpload
    obtain ⟨u, hu⟩ := hone himage
    obtain ⟨v, hv, -, hrow | ⟨c, hc, ⟨_, _, _, he, -⟩ | ⟨_, _, _, he, -, hrow⟩⟩⟩ :=
      (account_integrity sampleJwt_sound hr unforged_sampleUpload hs).1 u hu
    · exact absurd (congrArg UserRow.image hrow) (changed_of_map hu himage hv himage' (by simp))
    · cases he
    · cases he
      exact ⟨s, s', hr, hs, u, hu, hc, v, hv, hrow⟩

end MediumClone.Auth.Sessions
