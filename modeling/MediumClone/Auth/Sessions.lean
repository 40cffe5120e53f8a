import MediumClone.Auth.Gate
import MediumClone.Auth.RateLimit
import MediumClone.Auth.Registration
import MediumClone.Avatar.Handler
import MediumClone.Filters.ApiException
import MediumClone.Users.UserRow

/-!
# Auth — Sessions

Any number of concurrent requests to `AuthController` (`src/auth/auth.controller.ts`), to
`UserAvatarController` (`src/auth/user-avatar.controller.ts`) and to other routes behind their
guard, from one await to the next: with `issueToken` (`src/auth/auth-token-issuer.ts`),
`AuthService.login` (`src/auth/auth.service.ts`), the handlers of the current user, of its update
and of its avatar (`src/auth/auth-current-user-handler.ts`, `src/auth/auth-update-user-handler.ts`,
`src/auth/user-avatar-handler.ts`) and `TokenDenyListService.deny`.

The guard is that of `Gate`, the limiter that of `RateLimit`, an update that of `UserRow`.  The
transaction of a registration is one step, since concurrent ones agree on what it finds
(`Registration`), and so is the command of a logout (`DenyList` has its delays).  A statement that
fails is not carried out.

Of an upload there is what it does to its user: the lock, and the save, which is one step with the
commit because no one else writes a locked row.  `Handler` has its file and its clean-up, which
neither changes a user nor throws once the transaction has committed.

The JWTs and argon2 are parameters, and the ids and salts that are drawn come with the events.
-/

namespace MediumClone.Auth.Sessions
open Js Sys
open Users (UserRow UpdateUserRequest saveEntity)
open Filters (Exception HttpException)

/-! ### Tokens -/

structure AuthConfig where
  audience : Str
  issuer : Str

structure TokenClaims where
  aud : Str
  exp : ℤ
  iat : ℤ
  iss : Str
  jti : Str
  sub : Str

def createTokenClaims (config : AuthConfig) (subject tokenId : Str) (issuedAt expiresAt : ℤ) :
    TokenClaims where
  aud := config.audience
  exp := expiresAt
  iat := issuedAt
  iss := config.issuer
  jti := tokenId
  sub := subject

def TOKEN_LIFETIME_SECONDS : ℤ := 15 * 60

/-- The claims as the payload of a token. -/
def TokenClaims.toJs (claims : TokenClaims) : JsValue :=
  .object [("aud".toList, .string claims.aud), ("exp".toList, .number (.finite claims.exp)),
    ("iat".toList, .number (.finite claims.iat)), ("iss".toList, .string claims.iss),
    ("jti".toList, .string claims.jti), ("sub".toList, .string claims.sub)]

/-- `JwtService` with the options of `toJwtModuleOptions`; it verifies at a time in milliseconds. -/
structure JwtService where
  signAsync : TokenClaims → Str
  verifyAsync : ℤ → Str → Except Gate.Thrown JsValue

/-! ### Users -/

structure User extends UserRow where
  username : Str
  email : Str
  passwordHash : Str

structure UserToSerialize where
  bio : Option Str
  email : Str
  image : Option Str
  username : Str

/-- The `user` of the answer. -/
structure SerializedUser extends UserToSerialize where
  token : Str

def serializeUser (user : UserToSerialize) (token : Str) : SerializedUser where
  toUserToSerialize := user
  token := token

def User.toSerialize (user : User) : UserToSerialize where
  bio := user.bio
  email := user.email
  image := user.image
  username := user.username

/-- With the image of an upload. -/
def User.withAvatar (user : User) (attachmentId : Str) : User :=
  { user with toUserRow := (Users.Call.uploadAvatar attachmentId).run user.toUserRow }

/-- What the service is made with. -/
structure Service where
  config : AuthConfig
  jwt : JwtService
  hashing : Redis.Hashing
  /-- With the salt that argon2 draws. -/
  hashPassword : Str → Str → Str
  /-- `matchesPassword(hash, password)`. -/
  matchesPassword : Str → Str → Bool

def TIMING_PARITY_PASSWORD_HASH : Str :=
  ("$argon2id$v=19$m=65536,p=4,t=3$5KRxbfPDDZVDeWkvkmtU/A$" ++
    "S35kHKRLUx3/W9bsRHOpGrKsMfGn3d/ttbh08m4GWGg").toList

def issueToken (service : Service) (now : ℤ) (tokenId username : Str) : Str :=
  let issuedAt := now / 1000
  service.jwt.signAsync (createTokenClaims service.config username tokenId issuedAt
    (issuedAt + TOKEN_LIFETIME_SECONDS))

/-! ### Requests -/

structure RegisterRequest where
  email : Str
  username : Str
  password : Str

structure AuthLoginRequest where
  email : Str
  ipAddress : Option Str
  password : Str

/-- What `FileInterceptor` throws: an exception, or an error of multer with its code. -/
inductive FileError where
  | exception (exception : Exception)
  | multer (code : Str)

inductive Request where
  | register (user : RegisterRequest)
  | login (request : AuthLoginRequest)
  | currentUser (authorization : Option Str)
  | updateCurrentUser (authorization : Option Str) (update : UpdateUserRequest)
  | logout (authorization : Option Str)
  /-- With what `FileInterceptor` makes of the body. -/
  | uploadAvatar (authorization : Option Str) (file : Except FileError (Option Avatar.Bytes))
  /-- A route of another controller behind the guard; none of them writes a user. -/
  | other (authorization : Option Str)

/-- The header that the guard reads, on the routes that have the guard. -/
def Request.guarded : Request → Option (Option Str)
  | .register _ | .login _ => none
  | .currentUser authorization | .updateCurrentUser authorization _ | .logout authorization
  | .uploadAvatar authorization _ | .other authorization => some authorization

inductive Answer where
  | user (user : SerializedUser)
  | noContent

/-- Where a request stands. -/
inductive Phase where
  | start
  /-- A registration has its token, and no user yet. -/
  | issued (token : Str)
  /-- A login is within its limit. -/
  | consumed
  | found (user : Option User)
  | matched (user : User)
  /-- What the guard was given by the verifier, and when. -/
  | verifying (verifiedAt : ℤ) (verified : Except Gate.Thrown JsValue)
  /-- Past the guard, with `request.auth`. -/
  | admitted (verifiedAt : ℤ) (auth : JsValue)
  /-- An update has its new token. -/
  | renewed (verifiedAt : ℤ) (auth : JsValue) (token : Str)
  | updating (verifiedAt : ℤ) (auth : JsValue) (token : Str) (user : User)
  /-- An upload has passed its checks. -/
  | received (verifiedAt : ℤ) (auth : JsValue)
  /-- An upload has its user, and the lock of the row. -/
  | locked (verifiedAt : ℤ) (auth : JsValue) (currentUser : User)
  | answered (result : Except Exception Answer)

structure State (ι : Type*) where
  limiter : RateLimit.State
  users : List User
  /-- When a key of the deny list expires. -/
  denyList : Str → Option ℤ
  /-- The upload that has the lock of a user's row. -/
  lock : Str → Option ι
  phase : ι → Phase

inductive Event (ι : Type*) where
  | tick (now : ℤ)
  | issues (c : ι) (tokenId : Str)
  | registers (c : ι) (salt : Str)
  | consumes (c : ι)
  | findsByEmail (c : ι)
  | compares (c : ι)
  | verifies (c : ι)
  /-- The deny list is looked up, if it is reachable. -/
  | looksUp (c : ι) (reachable : Bool)
  | findsByUsername (c : ι)
  | saves (c : ι)
  | denies (c : ι)
  | receives (c : ι)
  | locks (c : ι)
  | commits (c : ι) (attachmentId : Str)
  /-- What the request awaits is rejected. -/
  | fails (c : ι)

/-! ### Errors -/

def requestFailed : Exception := HttpException 500 "body" "request failed"

def tokenIsInvalid : Exception := HttpException 401 "token" "is invalid"

/-- What the guard throws. -/
def ofThrown : Gate.Thrown → Exception
  | .unauthorized errors =>
    .http (.object [("errors".toList,
      .object (errors.map fun x => (x.1, .array (x.2.map .string))))]) 401
  | _ => .other

/-- `new ConflictException({ errors: { [error.field]: ['has already been taken'] } })`. -/
def conflict : Registration.Field → Exception
  | .username => HttpException 409 "username" "has already been taken"
  | .email => HttpException 409 "email" "has already been taken"

def avatarIsInvalid : Exception := HttpException 422 "avatar" "is invalid"

def UNEXPECTED_FILE_ERROR : Str := "LIMIT_UNEXPECTED_FILE".toList

/-- It leaves what the handler throws as it is. -/
def mapAvatarUploadError : FileError → Exception
  | .exception (.http _ 413) => HttpException 422 "avatar" "is too large"
  | .exception (.http _ 400) => avatarIsInvalid
  | .exception error => error
  | .multer code => if code = UNEXPECTED_FILE_ERROR then avatarIsInvalid else .other

def ofAvatarError : Avatar.AvatarError → Exception
  | .unprocessable => avatarIsInvalid
  | .unauthorized => tokenIsInvalid
  | .failed => .other

/-- What a request throws when what it awaits is rejected. -/
def rejection : Request → Phase → Option Exception
  | .register _, .start | .register _, .issued _ | .login _, .start | .login _, .consumed
  | .login _, .matched _ | .updateCurrentUser .., .admitted .. | .updateCurrentUser .., .renewed ..
  | .updateCurrentUser .., .updating .. => some requestFailed
  -- neither the handler nor the controller catches these
  | .currentUser _, .admitted .. | .logout _, .admitted .. | .uploadAvatar .., .received ..
  | .uploadAvatar .., .locked .. => some .other
  | _, _ => none

/-! ### The code -/

/-- `request.auth.sub`. -/
def subOf (auth : JsValue) : Str :=
  match auth.get "sub".toList with
  | .string s => s
  | _ => []

/-- `request.auth.token`. -/
def tokenOf (auth : JsValue) : Str :=
  match auth.get "token".toList with
  | .string s => s
  | _ => []

/-- `request.auth.exp`. -/
def expOf (auth : JsValue) : ℚ :=
  match auth.get "exp".toList with
  | .number (.finite q) => q
  | _ => 0

namespace State

variable {ι : Type*} (s : State ι)

def clock : ℤ := s.limiter.clock

def findByUsername (username : Str) : Option User := s.users.find? (·.username = username)

def findByEmail (email : Str) : Option User := s.users.find? (·.email = email)

def client (reachable : Bool) : Gate.TokenDenyListClient := fun key =>
  if reachable then
    some (match s.denyList key with
      | some expiry => if s.clock < expiry then some "1".toList else none
      | none => none)
  else none

variable [DecidableEq ι]

def set (c : ι) (phase : Phase) : State ι := { s with phase := Function.update s.phase c phase }

def answer (c : ι) (answer : Answer) : State ι := s.set c (.answered (.ok answer))

def throw (c : ι) (exception : Exception) : State ι := s.set c (.answered (.error exception))

/-- Without the lock that the request has. -/
def unlock (c : ι) : State ι :=
  { s with lock := fun username => if s.lock username = some c then none else s.lock username }

end State

/-- `save(entity)`, where a username stands for the user's id. -/
def saveUser (entity : User) (users : List User) : List User :=
  users.map fun u =>
    if u.username = entity.username then
      { u with toUserRow := saveEntity entity.toUserRow u.toUserRow }
    else u

section Step

variable {ι : Type*} [DecidableEq ι] (service : Service) (calls : ι → Request)

def init (ι : Type*) (clock : ℤ) : State ι where
  limiter := RateLimit.init clock
  users := []
  denyList := fun _ => none
  lock := fun _ => none
  phase := fun _ => .start

/-- The transaction of `AuthService.register`: the user that it saves, or what is taken. -/
def register (request : RegisterRequest) (salt : Str) (users : List User) :
    Except Registration.Field User :=
  if users.any (·.username = request.username) then .error .username
  else if users.any (·.email = request.email) then .error .email
  else .ok
    { bio := none
      image := none
      username := request.username
      email := request.email
      passwordHash := service.hashPassword salt request.password }

def step (s : State ι) : Event ι → Option (State ι)
  | .tick now => (RateLimit.step service.hashing s.limiter (.tick now)).map fun limiter =>
      { s with limiter := limiter }
  | .issues c tokenId =>
    match calls c, s.phase c with
    | .register user, .start =>
      some (s.set c (.issued (issueToken service s.clock tokenId user.username)))
    | .login _, .matched user =>
      some (s.answer c (.user (serializeUser user.toSerialize
        (issueToken service s.clock tokenId user.username))))
    | .updateCurrentUser .., .admitted verifiedAt auth =>
      some (s.set c (.renewed verifiedAt auth (issueToken service s.clock tokenId (subOf auth))))
    | _, _ => none
  | .registers c salt =>
    match calls c, s.phase c with
    | .register request, .issued token =>
      match register service request salt s.users with
      | .error field => some (s.throw c (conflict field))
      | .ok user =>
        let answer : UserToSerialize :=
          { bio := none, email := user.email, image := none, username := user.username }
        some { s.answer c (.user (serializeUser answer token)) with users := s.users ++ [user] }
    | _, _ => none
  | .consumes c =>
    match calls c, s.phase c with
    | .login request, .start =>
      (RateLimit.step service.hashing s.limiter (.consume request.email request.ipAddress)).map
        fun limiter =>
          if (RateLimit.consume service.hashing s.clock request.email request.ipAddress
            s.limiter.db).1 then { s.set c .consumed with limiter := limiter }
          else { s.throw c (HttpException 429 "body" "too many requests") with limiter := limiter }
    | _, _ => none
  | .findsByEmail c =>
    match calls c, s.phase c with
    | .login request, .consumed => some (s.set c (.found (s.findByEmail request.email)))
    | _, _ => none
  | .compares c =>
    match calls c, s.phase c with
    | .login request, .found user =>
      let passwordMatches := service.matchesPassword
        ((user.map (·.passwordHash)).getD TIMING_PARITY_PASSWORD_HASH) request.password
      match user with
      | some user =>
        if passwordMatches then some (s.set c (.matched user))
        else some (s.throw c (HttpException 401 "credentials" "invalid"))
      | none => some (s.throw c (HttpException 401 "credentials" "invalid"))
    | _, _ => none
  | .verifies c =>
    match (calls c).guarded, s.phase c with
    | some authorization, .start =>
      match Gate.getToken authorization with
      | none => some (s.throw c (ofThrown Gate.tokenIsMissing))
      | some token => some (s.set c (.verifying s.clock (service.jwt.verifyAsync s.clock token)))
    | _, _ => none
  | .looksUp c reachable =>
    match (calls c).guarded, s.phase c with
    | some authorization, .verifying verifiedAt verified =>
      match Gate.AuthTokenGuard.canActivate ⟨some fun _ => verified, some (s.client reachable)⟩
        ⟨authorization, none⟩ with
      | (.error error, _) => some (s.throw c (ofThrown error))
      | (.ok _, request) => request.auth.map fun auth => s.set c (.admitted verifiedAt auth)
    | _, _ => none
  | .findsByUsername c =>
    match calls c, s.phase c with
    | .currentUser _, .admitted _ auth =>
      match s.findByUsername (subOf auth) with
      | none => some (s.throw c tokenIsInvalid)
      | some user => some (s.answer c (.user (serializeUser user.toSerialize (tokenOf auth))))
    | .updateCurrentUser .., .renewed verifiedAt auth token =>
      match s.findByUsername (subOf auth) with
      | none => some (s.throw c tokenIsInvalid)
      | some user => some (s.set c (.updating verifiedAt auth token user))
    | _, _ => none
  | .saves c =>
    match calls c, s.phase c with
    | .updateCurrentUser _ update, .updating _ _ token user =>
      -- it waits for the lock
      if s.lock user.username = none then
        let user := { user with toUserRow := update.assign user.toUserRow }
        some { s.answer c (.user (serializeUser user.toSerialize token)) with
          users := saveUser user s.users }
      else none
    | _, _ => none
  | .denies c =>
    match calls c, s.phase c with
    | .logout _, .admitted _ auth =>
      let ttlSeconds := expOf auth - (s.clock / 1000 : ℤ)
      if ttlSeconds ≤ 0 then some (s.answer c .noContent)
      -- Redis takes whole seconds only
      else if ttlSeconds.den = 1 then
        some { s.answer c .noContent with
          denyList := Function.update s.denyList (Gate.key (Gate.jti auth))
            (some (s.clock + 1000 * ttlSeconds.num)) }
      else some (s.throw c .other)
    | _, _ => none
  | .receives c =>
    match calls c, s.phase c with
    | .uploadAvatar _ file, .admitted verifiedAt auth =>
      match file with
      | .error error => some (s.throw c (mapAvatarUploadError error))
      | .ok upload =>
        match Avatar.checkUpload upload with
        | .error error => some (s.throw c (ofAvatarError error))
        | .ok _ => some (s.set c (.received verifiedAt auth))
    | _, _ => none
  | .locks c =>
    match calls c, s.phase c with
    | .uploadAvatar .., .received verifiedAt auth =>
      if s.lock (subOf auth) = none then
        match s.findByUsername (subOf auth) with
        | none => some (s.throw c tokenIsInvalid)
        | some currentUser => some { s.set c (.locked verifiedAt auth currentUser) with
            lock := Function.update s.lock currentUser.username (some c) }
      else none
    | _, _ => none
  | .commits c attachmentId =>
    match calls c, s.phase c with
    | .uploadAvatar .., .locked _ auth currentUser =>
      let user := currentUser.withAvatar attachmentId
      some { (s.unlock c).answer c (.user (serializeUser user.toSerialize (tokenOf auth))) with
        users := saveUser user s.users }
    | _, _ => none
  | .fails c => (rejection (calls c) (s.phase c)).map ((s.unlock c).throw c)

end Step

/-! ### What a step does -/

theorem findByUsername_eq_some {ι : Type*} {s : State ι} {username : Str} {u : User}
    (h : s.findByUsername username = some u) : u ∈ s.users ∧ u.username = username :=
  ⟨List.mem_of_find?_eq_some h, by simpa using List.find?_some h⟩

section Transition

variable {ι : Type*} [DecidableEq ι] {service : Service} {calls : ι → Request} {s s' : State ι}
  {e : Event ι}

/-- The steps, each with what the request finds; whatever is thrown, the users are as they were, and
the locks that others have. -/
inductive Transition (service : Service) (calls : ι → Request) (s : State ι) :
    Event ι → State ι → Prop where
  | ticks {now} (h : s.clock ≤ now) :
      Transition service calls s (.tick now) { s with limiter := { s.limiter with clock := now } }
  | throws {e c exception limiter lock} (hopen : ∀ result, s.phase c ≠ .answered result)
      (hclock : limiter.clock = s.clock)
      (hlock : ∀ c' username, c' ≠ c → s.lock username = some c' → lock username = some c') :
      Transition service calls s e { s.throw c exception with limiter := limiter, lock := lock }
  | issues {c tokenId user} (hc : calls c = .register user) (hp : s.phase c = .start) :
      Transition service calls s (.issues c tokenId)
        (s.set c (.issued (issueToken service s.clock tokenId user.username)))
  | registers {c salt request token user} (hc : calls c = .register request)
      (hp : s.phase c = .issued token) (h : register service request salt s.users = .ok user) :
      Transition service calls s (.registers c salt) { s.answer c (.user (serializeUser
        { bio := none, email := user.email, image := none, username := user.username } token)) with
        users := s.users ++ [user] }
  | consumes {c request limiter} (hc : calls c = .login request) (hp : s.phase c = .start)
      (hclock : limiter.clock = s.clock) :
      Transition service calls s (.consumes c) { s.set c .consumed with limiter := limiter }
  | findsByEmail {c request} (hc : calls c = .login request) (hp : s.phase c = .consumed) :
      Transition service calls s (.findsByEmail c)
        (s.set c (.found (s.findByEmail request.email)))
  | compares {c request user} (hc : calls c = .login request) (hp : s.phase c = .found (some user))
      (h : service.matchesPassword user.passwordHash request.password = true) :
      Transition service calls s (.compares c) (s.set c (.matched user))
  | logsIn {c tokenId request user} (hc : calls c = .login request)
      (hp : s.phase c = .matched user) :
      Transition service calls s (.issues c tokenId) (s.answer c (.user
        (serializeUser user.toSerialize (issueToken service s.clock tokenId user.username))))
  | verifies {c authorization token} (hg : (calls c).guarded = some authorization)
      (hp : s.phase c = .start) (htoken : Gate.getToken authorization = some token) :
      Transition service calls s (.verifies c)
        (s.set c (.verifying s.clock (service.jwt.verifyAsync s.clock token)))
  | admits {c reachable authorization verifiedAt verified admitted request auth}
      (hg : (calls c).guarded = some authorization)
      (hp : s.phase c = .verifying verifiedAt verified)
      (hguard : Gate.AuthTokenGuard.canActivate
        ⟨some fun _ => verified, some (s.client reachable)⟩ ⟨authorization, none⟩ =
          (.ok admitted, request)) (hauth : request.auth = some auth) :
      Transition service calls s (.looksUp c reachable) (s.set c (.admitted verifiedAt auth))
  | shows {c authorization verifiedAt auth user} (hc : calls c = .currentUser authorization)
      (hp : s.phase c = .admitted verifiedAt auth)
      (hu : s.findByUsername (subOf auth) = some user) :
      Transition service calls s (.findsByUsername c)
        (s.answer c (.user (serializeUser user.toSerialize (tokenOf auth))))
  | renews {c tokenId authorization update verifiedAt auth}
      (hc : calls c = .updateCurrentUser authorization update)
      (hp : s.phase c = .admitted verifiedAt auth) :
      Transition service calls s (.issues c tokenId)
        (s.set c (.renewed verifiedAt auth (issueToken service s.clock tokenId (subOf auth))))
  | findsByUsername {c authorization update verifiedAt auth token user}
      (hc : calls c = .updateCurrentUser authorization update)
      (hp : s.phase c = .renewed verifiedAt auth token)
      (hu : s.findByUsername (subOf auth) = some user) :
      Transition service calls s (.findsByUsername c)
        (s.set c (.updating verifiedAt auth token user))
  | saves {c authorization update verifiedAt auth token user}
      (hc : calls c = .updateCurrentUser authorization update)
      (hp : s.phase c = .updating verifiedAt auth token user) (hl : s.lock user.username = none) :
      Transition service calls s (.saves c)
        { s.answer c (.user (serializeUser
            { user with toUserRow := update.assign user.toUserRow }.toSerialize token)) with
          users := saveUser { user with toUserRow := update.assign user.toUserRow } s.users }
  | logsOut {c authorization verifiedAt auth denyList} (hc : calls c = .logout authorization)
      (hp : s.phase c = .admitted verifiedAt auth) :
      Transition service calls s (.denies c) { s.answer c .noContent with denyList := denyList }
  | receives {c authorization file verifiedAt auth}
      (hc : calls c = .uploadAvatar authorization file)
      (hp : s.phase c = .admitted verifiedAt auth) :
      Transition service calls s (.receives c) (s.set c (.received verifiedAt auth))
  | locks {c authorization file verifiedAt auth currentUser}
      (hc : calls c = .uploadAvatar authorization file)
      (hp : s.phase c = .received verifiedAt auth)
      (hl : s.lock currentUser.username = none)
      (hu : s.findByUsername (subOf auth) = some currentUser) :
      Transition service calls s (.locks c) { s.set c (.locked verifiedAt auth currentUser) with
        lock := Function.update s.lock currentUser.username (some c) }
  | commits {c attachmentId authorization file verifiedAt auth currentUser}
      (hc : calls c = .uploadAvatar authorization file)
      (hp : s.phase c = .locked verifiedAt auth currentUser) :
      Transition service calls s (.commits c attachmentId)
        { (s.unlock c).answer c (.user (serializeUser
            (currentUser.withAvatar attachmentId).toSerialize (tokenOf auth))) with
          users := saveUser (currentUser.withAvatar attachmentId) s.users }

/-- What is thrown where neither the limiter nor a lock is touched. -/
theorem Transition.throw {c : ι} {exception : Exception} {phase : Phase} (hp : s.phase c = phase)
    (h : ∀ result, phase ≠ .answered result) :
    Transition service calls s e (s.throw c exception) :=
  @Transition.throws _ _ _ _ _ _ _ _ s.limiter s.lock (hp ▸ h) rfl fun _ _ _ hl => hl

theorem lock_unlock_of_ne {c c' : ι} {username : Str} (hc : c' ≠ c)
    (hl : s.lock username = some c') : (s.unlock c).lock username = some c' := by
  have hne : s.lock username ≠ some c := fun h => hc (Option.some.inj (hl.symm.trans h))
  exact (if_neg hne).trans hl

theorem step_transition (hs : step service calls s e = some s') :
    Transition service calls s e s' := by
  cases e with
  | tick now =>
      obtain ⟨limiter, hlimiter, rfl⟩ := Option.map_eq_some_iff.mp hs
      obtain ⟨h, hlimiter⟩ := Option.ite_none_right_eq_some.mp hlimiter
      cases hlimiter
      exact .ticks h
  | issues c tokenId =>
      simp only [step] at hs
      split at hs
      · rename_i hc hp
        cases hs
        exact .issues hc hp
      · rename_i hc hp
        cases hs
        exact .logsIn hc hp
      · rename_i hc hp
        cases hs
        exact .renews hc hp
      · cases hs
  | registers c salt =>
      simp only [step] at hs
      split at hs
      · rename_i hc hp
        split at hs
        · cases hs
          exact .throw hp (by simp)
        · rename_i h
          cases hs
          exact .registers hc hp h
      · cases hs
  | consumes c =>
      simp only [step] at hs
      split at hs
      · rename_i hc hp
        obtain ⟨limiter, hlimiter, rfl⟩ := Option.map_eq_some_iff.mp hs
        have hclock : limiter.clock = s.clock := by
          obtain rfl := Option.some.inj hlimiter
          rfl
        split
        · exact .consumes hc hp hclock
        · exact .throws (by simp [hp]) hclock fun _ _ _ hl => hl
      · cases hs
  | findsByEmail c =>
      simp only [step] at hs
      split at hs
      · rename_i hc hp
        cases hs
        exact .findsByEmail hc hp
      · cases hs
  | compares c =>
      simp only [step] at hs
      split at hs
      · rename_i hc hp
        split at hs
        · rename_i user
          split at hs
          · rename_i h
            cases hs
            exact .compares hc hp h
          · cases hs
            exact .throw hp (by simp)
        · cases hs
          exact .throw hp (by simp)
      · cases hs
  | verifies c =>
      simp only [step] at hs
      split at hs
      · rename_i hg hp
        split at hs
        · cases hs
          exact .throw hp (by simp)
        · rename_i htoken
          cases hs
          exact .verifies hg hp htoken
      · cases hs
  | looksUp c reachable =>
      simp only [step] at hs
      split at hs
      · rename_i hg hp
        split at hs
        · cases hs
          exact .throw hp (by simp)
        · rename_i hguard
          obtain ⟨auth, hauth, rfl⟩ := Option.map_eq_some_iff.mp hs
          exact .admits hg hp hguard hauth
      · cases hs
  | findsByUsername c =>
      simp only [step] at hs
      split at hs
      · rename_i hc hp
        split at hs
        · cases hs
          exact .throw hp (by simp)
        · rename_i hu
          cases hs
          exact .shows hc hp hu
      · rename_i hc hp
        split at hs
        · cases hs
          exact .throw hp (by simp)
        · rename_i hu
          cases hs
          exact .findsByUsername hc hp hu
      · cases hs
  | saves c =>
      simp only [step] at hs
      split at hs
      · rename_i hc hp
        split at hs
        · rename_i hl
          cases hs
          exact .saves hc hp hl
        · cases hs
      · cases hs
  | denies c =>
      simp only [step] at hs
      split at hs
      · rename_i hc hp
        split at hs
        · cases hs
          exact @Transition.logsOut _ _ _ _ _ _ _ _ _ s.denyList hc hp
        · split at hs
          · cases hs
            exact .logsOut hc hp
          · cases hs
            exact .throw hp (by simp)
      · cases hs
  | receives c =>
      simp only [step] at hs
      split at hs
      · rename_i hc hp
        split at hs
        · cases hs
          exact .throw hp (by simp)
        · split at hs
          · cases hs
            exact .throw hp (by simp)
          · cases hs
            exact .receives hc hp
      · cases hs
  | locks c =>
      simp only [step] at hs
      split at hs
      · rename_i hc hp
        split at hs
        · rename_i hl
          split at hs
          · cases hs
            exact .throw hp (by simp)
          · rename_i hu
            cases hs
            have husername := (findByUsername_eq_some hu).2
            exact .locks hc hp (husername ▸ hl) hu
        · cases hs
      · cases hs
  | commits c attachmentId =>
      simp only [step] at hs
      split at hs
      · rename_i hc hp
        cases hs
        exact .commits hc hp
      · cases hs
  | fails c =>
      obtain ⟨exception, hrejection, rfl⟩ := Option.map_eq_some_iff.mp hs
      refine .throws ?_ rfl fun _ _ hc hl => lock_unlock_of_ne hc hl
      intro result hp
      simp [rejection, hp] at hrejection

end Transition

end MediumClone.Auth.Sessions
