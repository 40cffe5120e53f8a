import MediumClone.Support.JsValue

/-!
# Auth — Gate

`AuthTokenGuard` (`src/auth/auth-token.guard.ts`) and `OptionalAuthTokenGuard`
(`src/auth/optional-auth-token.guard.ts`) over `AuthService.authenticate`
(`src/auth/auth.service.ts`) and `isTokenClaims` (`src/auth/token-claims.ts`).

The verifier of the JWTs and the client of the deny list are any functions; each may fail.

`getToken_eq_some`, `isTokenClaims_iff` and `authenticate_eq_ok` say what each layer lets through,
and `gate` puts them together.
-/

namespace MediumClone.Auth.Gate
open Js

/-! ### What is thrown -/

abbrev Errors := List (Str × List Str)

inductive Thrown where
  /-- An `UnauthorizedException`, with the `errors` of its response. -/
  | unauthorized (errors : Errors)
  /-- An `AuthInvalidTokenError`. -/
  | invalidToken
  /-- A `TokenDenyListUnavailableError`. -/
  | denyListUnavailable
  | other
  deriving DecidableEq

def tokenIsMissing : Thrown := .unauthorized [("token".toList, ["is missing".toList])]

def tokenIsInvalid : Thrown := .unauthorized [("token".toList, ["is invalid".toList])]

/-! ### The service -/

/-- The client of the deny list: the reply to a `get`, `none` where it is rejected. -/
abbrev TokenDenyListClient := Str → Option (Option Str)

structure AuthService where
  tokenVerifier : Option (Str → Except Thrown JsValue)
  tokenDenyList : Option TokenDenyListClient

def isNonEmptyString : JsValue → Bool
  | .string s => s.length > 0
  | _ => false

/-- `typeof value === 'number' && Number.isFinite(value)`. -/
def isFiniteNumber : JsValue → Bool
  | .number (.finite _) => true
  | _ => false

def isTokenClaims (value : JsValue) : Bool :=
  value.isRecord && isNonEmptyString (value.get "aud".toList) &&
    isNonEmptyString (value.get "iss".toList) && isNonEmptyString (value.get "sub".toList) &&
    isNonEmptyString (value.get "jti".toList) && isFiniteNumber (value.get "exp".toList) &&
    isFiniteNumber (value.get "iat".toList)

def key (tokenId : Str) : Str := "auth:deny-list:".toList ++ tokenId

/-- `TokenDenyListService.isDenied`. -/
def isDenied (client : TokenDenyListClient) (tokenId : Str) : Except Thrown Bool :=
  match client (key tokenId) with
  | none => .error .denyListUnavailable
  | some reply => .ok (reply ≠ none)

/-- The `jti` of claims, which is a string. -/
def jti (claims : JsValue) : Str :=
  match claims.get "jti".toList with
  | .string s => s
  | _ => []

/-- The body of the `try` of `authenticate`. -/
def AuthService.check (service : AuthService) (verified : Except Thrown JsValue) :
    Except Thrown JsValue :=
  match verified with
  | .error error => .error error
  | .ok claims =>
    if ¬ isTokenClaims claims then .error .invalidToken
    else
      match service.tokenDenyList with
      | none => .ok claims
      | some client =>
        match isDenied client (jti claims) with
        | .error error => .error error
        | .ok denied => if denied then .error .invalidToken else .ok claims

def AuthService.authenticate (service : AuthService) (token : Str) : Except Thrown JsValue :=
  match service.tokenVerifier with
  | none => .error .invalidToken
  | some verify =>
    match service.check (verify token) with
    | .error error => .error (if error = .denyListUnavailable then error else .invalidToken)
    | .ok claims => .ok claims

/-! ### The guards -/

structure Request where
  /-- `headers.authorization`. -/
  authorization : Option Str
  auth : Option JsValue

def AUTH_TOKEN_SCHEME : Str := "Token".toList

/-- `[scheme, token, extra]`, and the test of the three. -/
def tokenOf : List Str → Option Str
  | scheme :: token :: rest =>
    if scheme = AUTH_TOKEN_SCHEME ∧ token ≠ [] ∧ rest.head?.getD [] = [] then some token else none
  | _ => none

def getToken (authorization : Option Str) : Option Str :=
  tokenOf ((authorization.map fun header => splitWhiteSpace (trim header)).getD [])

/-- What the guard does: its result, and the request after it. -/
abbrev Outcome := Except Thrown Bool × Request

def AuthTokenGuard.canActivate (service : AuthService) (request : Request) : Outcome :=
  match getToken request.authorization with
  | none => (.error tokenIsMissing, request)
  | some token =>
    match service.authenticate token with
    | .ok claims =>
      let auth := .object (JsValue.setProperty "token".toList (.string token) claims.entries)
      (.ok true, { request with auth := some auth })
    | .error .invalidToken => (.error tokenIsInvalid, request)
    | .error error => (.error error, request)

def isMissingTokenError : Thrown → Bool
  | .unauthorized errors =>
    (errors.lookup "token".toList).bind List.head? = some "is missing".toList
  | _ => false

def OptionalAuthTokenGuard.canActivate (service : AuthService) (request : Request) : Outcome :=
  match request.authorization with
  | none => (.ok true, request)
  | some _ =>
    match AuthTokenGuard.canActivate service request with
    | (.error error, request) =>
      (.error (if isMissingTokenError error then tokenIsInvalid else error), request)
    | (.ok admitted, request) => (.ok admitted, request)

/-! ### The header -/

def Word (w : Str) : Prop := w ≠ [] ∧ ∀ c ∈ w, isWhiteSpace c = false

/-- Two words with white space between them. -/
def TwoWords (s w w' : Str) : Prop :=
  Word w ∧ Word w' ∧ ∃ sep, sep ≠ [] ∧ (∀ c ∈ sep, isWhiteSpace c = true) ∧ s = w ++ (sep ++ w')

variable {header t : Str}

theorem Word.head (h : Word t) : ∀ c ∈ t.head?, isWhiteSpace c = false :=
  fun c hc => h.2 c (List.mem_of_mem_head? hc)

theorem tokenOf_eq_some {scheme token : Str} {rest : List Str} :
    tokenOf (scheme :: token :: rest) = some t ↔
      scheme = AUTH_TOKEN_SCHEME ∧ token = t ∧ token ≠ [] ∧ rest.head?.getD [] = [] := by
  rw [tokenOf, Option.ite_none_right_eq_some, Option.some.injEq]
  tauto

theorem splitWhiteSpace_head {c : Char} {s : Str} (h : isWhiteSpace c = false) :
    ∃ w words, splitWhiteSpace (c :: s) = (c :: w) :: words := by
  rw [splitWhiteSpace, if_neg (by simp [h])]
  split
  · exact ⟨[], [], rfl⟩
  · exact ⟨_, _, rfl⟩

theorem getToken_of_twoWords (h : TwoWords (trim header) AUTH_TOKEN_SCHEME t) :
    getToken (some header) = some t := by
  obtain ⟨hw, hw', sep, hne, hsep, heq⟩ := h
  change tokenOf (splitWhiteSpace (trim header)) = some t
  rw [heq, splitWhiteSpace_append hw.2 hsep hne hw'.head, splitWhiteSpace_word hw'.2]
  exact tokenOf_eq_some.mpr ⟨rfl, rfl, hw'.1, rfl⟩

theorem twoWords_of_getToken (h : getToken (some header) = some t) :
    TwoWords (trim header) AUTH_TOKEN_SCHEME t := by
  change tokenOf (splitWhiteSpace (trim header)) = some t at h
  have hlast := getLast?_trim header
  rcases exists_word (trim header) with hw | ⟨w, sep, s, heq, hw, hsep, hne, hs⟩
  · rw [splitWhiteSpace_word hw] at h
    cases h
  · rw [heq] at hlast ⊢
    rw [heq, splitWhiteSpace_append hw hsep hne hs] at h
    rcases exists_word s with hw' | ⟨w', sep', s', rfl, hw', hsep', hne', hs'⟩
    · rw [splitWhiteSpace_word hw'] at h
      obtain ⟨rfl, rfl, htoken, -⟩ := tokenOf_eq_some.mp h
      exact ⟨⟨List.cons_ne_nil _ _, hw⟩, ⟨htoken, hw'⟩, sep, hne, hsep, rfl⟩
    · rw [splitWhiteSpace_append hw' hsep' hne' hs'] at h
      obtain ⟨-, -, -, hextra⟩ := tokenOf_eq_some.mp h
      -- there is no white space at the end, so the third word is not empty
      cases s' with
      | nil =>
          obtain ⟨c, hc⟩ := Option.ne_none_iff_exists'.mp (mt List.getLast?_eq_none_iff.mp hne')
          have hspace := hsep' c (List.mem_of_getLast? hc)
          rw [hlast c (by simp [List.getLast?_append, hc])] at hspace
          cases hspace
      | cons c s' =>
          obtain ⟨w'', words, hsplit⟩ := splitWhiteSpace_head (s := s') (hs' c rfl)
          rw [hsplit] at hextra
          cases hextra

theorem getToken_eq_some {authorization : Option Str} : getToken authorization = some t ↔
    ∃ header, authorization = some header ∧ TwoWords (trim header) AUTH_TOKEN_SCHEME t := by
  cases authorization with
  | none => simp [getToken, tokenOf]
  | some header =>
      constructor
      · exact fun h => ⟨header, rfl, twoWords_of_getToken h⟩
      · rintro ⟨w, heq, h⟩
        cases heq
        exact getToken_of_twoWords h

/-! ### The claims -/

structure TokenClaims (value : JsValue) : Prop where
  aud : ∃ s, s ≠ [] ∧ value.get "aud".toList = .string s
  iss : ∃ s, s ≠ [] ∧ value.get "iss".toList = .string s
  sub : ∃ s, s ≠ [] ∧ value.get "sub".toList = .string s
  jti : ∃ s, s ≠ [] ∧ value.get "jti".toList = .string s
  exp : ∃ q, value.get "exp".toList = .number (.finite q)
  iat : ∃ q, value.get "iat".toList = .number (.finite q)

theorem isNonEmptyString_iff {value : JsValue} :
    isNonEmptyString value = true ↔ ∃ s, s ≠ [] ∧ value = .string s := by
  cases value with
  | string s => simp [isNonEmptyString, List.length_pos_iff]
  | _ => simp [isNonEmptyString]

theorem isFiniteNumber_iff {value : JsValue} :
    isFiniteNumber value = true ↔ ∃ q, value = .number (.finite q) := by
  cases value with
  | number n => cases n <;> simp [isFiniteNumber]
  | _ => simp [isFiniteNumber]

theorem isTokenClaims_iff {value : JsValue} : isTokenClaims value = true ↔ TokenClaims value := by
  simp only [isTokenClaims, Bool.and_eq_true, isNonEmptyString_iff, isFiniteNumber_iff]
  constructor
  · rintro ⟨⟨⟨⟨⟨⟨-, aud⟩, iss⟩, sub⟩, jti⟩, exp⟩, iat⟩
    exact ⟨aud, iss, sub, jti, exp, iat⟩
  · rintro ⟨⟨s, hs, aud⟩, iss, sub, jti, exp, iat⟩
    have hrecord : value.isRecord = true := by
      cases value with
      | object => rfl
      | _ => cases aud
    exact ⟨⟨⟨⟨⟨⟨hrecord, s, hs, aud⟩, iss⟩, sub⟩, jti⟩, exp⟩, iat⟩

/-! ### Authentication -/

section

variable {verify : Str → Except Thrown JsValue} {client : TokenDenyListClient} {claims : JsValue}

/-- A reply to the look-up lets the claims through exactly when it is `null`. -/
theorem check_ok (hclaims : isTokenClaims claims = true) :
    (AuthService.mk (some verify) (some client)).check (.ok claims) =
      match client (key (jti claims)) with
      | none => .error .denyListUnavailable
      | some none => .ok claims
      | some (some _) => .error .invalidToken := by
  rcases hreply : client (key (jti claims)) with _ | _ | reply
  · simp [AuthService.check, isDenied, hclaims, hreply]
  · simp [AuthService.check, isDenied, hclaims, hreply]
  · simp [AuthService.check, isDenied, hclaims, hreply]

theorem check_not (hclaims : isTokenClaims claims = false) :
    (AuthService.mk (some verify) (some client)).check (.ok claims) = .error .invalidToken := by
  simp [AuthService.check, hclaims]

theorem check_eq_ok (verify : Str → Except Thrown JsValue) {verified : Except Thrown JsValue} :
    (AuthService.mk (some verify) (some client)).check verified = .ok claims ↔
      verified = .ok claims ∧ TokenClaims claims ∧ client (key (jti claims)) = some none := by
  rw [← isTokenClaims_iff]
  constructor
  · intro h
    cases verified with
    | error e => cases h
    | ok value =>
        cases hclaims : isTokenClaims value with
        | false =>
            rw [check_not hclaims] at h
            cases h
        | true =>
            rw [check_ok hclaims] at h
            split at h
            · cases h
            · cases h
              exact ⟨rfl, hclaims, ‹_›⟩
            · cases h
  · rintro ⟨rfl, hclaims, hreply⟩
    rw [check_ok hclaims, hreply]

theorem authenticate_eq_ok :
    (AuthService.mk (some verify) (some client)).authenticate t = .ok claims ↔
      verify t = .ok claims ∧ TokenClaims claims ∧ client (key (jti claims)) = some none := by
  rw [← check_eq_ok verify, AuthService.authenticate]
  simp only
  split <;> simp_all

/-- That the deny list does not reply is the one error of the check that is passed on. -/
theorem authenticate_eq_unavailable {client : Option TokenDenyListClient} :
    (AuthService.mk (some verify) client).authenticate t = .error .denyListUnavailable ↔
      (AuthService.mk (some verify) client).check (verify t) = .error .denyListUnavailable := by
  rw [AuthService.authenticate]
  dsimp only
  cases (AuthService.mk (some verify) client).check (verify t) with
  | ok claims => simp
  | error error =>
      by_cases herror : error = .denyListUnavailable
      · simp [herror]
      · simp [herror]

/-- Whatever the verifier throws, and whatever it gives that is no claims, is an invalid token. -/
theorem authenticate_error {service : AuthService} {e : Thrown}
    (h : service.authenticate t = .error e) : e = .invalidToken ∨ e = .denyListUnavailable := by
  rw [AuthService.authenticate] at h
  split at h
  · cases h
    exact .inl rfl
  · split at h
    · rename_i error _
      cases h
      by_cases he : error = .denyListUnavailable
      · exact .inr (if_pos he ▸ he)
      · exact .inl (if_neg he)
    · cases h

/-! ### The gate -/

/-- The header holds the token `t`, which is verified with `claims` and not denied. -/
structure Admissible (verify : Str → Except Thrown JsValue) (client : TokenDenyListClient)
    (request : Request) (t : Str) (claims : JsValue) : Prop where
  header : ∃ header, request.authorization = some header ∧
    TwoWords (trim header) AUTH_TOKEN_SCHEME t
  verified : verify t = .ok claims
  wellFormed : TokenClaims claims
  notDenied : ∀ id, claims.get "jti".toList = .string id → client (key id) = some none

theorem admissible_iff {request : Request} : Admissible verify client request t claims ↔
    getToken request.authorization = some t ∧
      (AuthService.mk (some verify) (some client)).authenticate t = .ok claims := by
  rw [getToken_eq_some, authenticate_eq_ok]
  constructor
  · rintro ⟨hheader, hverified, hwell, hnot⟩
    obtain ⟨id, -, hid⟩ := hwell.jti
    refine ⟨hheader, hverified, hwell, ?_⟩
    rw [jti, hid]
    exact hnot id hid
  · rintro ⟨hheader, hverified, hwell, hnot⟩
    refine ⟨hheader, hverified, hwell, ?_⟩
    intro id hid
    rw [jti, hid] at hnot
    exact hnot

/-- The claims, and the token with them. -/
def authOf (t : Str) (claims : JsValue) : JsValue :=
  .object (JsValue.setProperty "token".toList (.string t) claims.entries)

theorem get_authOf (h : TokenClaims claims) {name : Str} (hne : name ≠ "token".toList) :
    (authOf t claims).get name = claims.get name := by
  obtain ⟨s, -, haud⟩ := h.aud
  have hdefined : claims.get "aud".toList ≠ .undefined := by
    rw [haud]
    exact nofun
  have hobject : claims = .object claims.entries := JsValue.get_entries hdefined
  rw [authOf, JsValue.get_setProperty_of_ne hne, ← hobject]

theorem canActivate_of_admissible {request : Request}
    (h : Admissible verify client request t claims) :
    AuthTokenGuard.canActivate ⟨some verify, some client⟩ request =
      (.ok true, { request with auth := some (authOf t claims) }) := by
  obtain ⟨htoken, hauth⟩ := admissible_iff.mp h
  simp only [AuthTokenGuard.canActivate, htoken, hauth, authOf]

theorem canActivate_of_not {request : Request}
    (h : ∀ t claims, ¬ Admissible verify client request t claims) :
    ∃ e, (e = tokenIsMissing ∨ e = tokenIsInvalid ∨ e = .denyListUnavailable) ∧
      AuthTokenGuard.canActivate ⟨some verify, some client⟩ request = (.error e, request) := by
  rw [AuthTokenGuard.canActivate]
  cases htoken : getToken request.authorization with
  | none => exact ⟨tokenIsMissing, .inl rfl, rfl⟩
  | some t =>
      cases hauth : (AuthService.mk (some verify) (some client)).authenticate t with
      | ok claims => exact absurd (admissible_iff.mpr ⟨htoken, hauth⟩) (h t claims)
      | error e =>
          rcases authenticate_error hauth with rfl | rfl
          · exact ⟨tokenIsInvalid, .inr (.inl rfl), by simp only [hauth]⟩
          · exact ⟨.denyListUnavailable, .inr (.inr rfl), by simp only [hauth]⟩

/-- A present header is for the other guard, whose errors are translated. -/
theorem optional_of_present {service : AuthService} {request request' : Request}
    (h : request.authorization ≠ none) {result : Except Thrown Bool}
    (hguard : AuthTokenGuard.canActivate service request = (result, request')) :
    OptionalAuthTokenGuard.canActivate service request =
      (result.mapError fun e => if isMissingTokenError e then tokenIsInvalid else e, request') := by
  rw [OptionalAuthTokenGuard.canActivate]
  cases hauth : request.authorization with
  | none => exact absurd hauth h
  | some header =>
      rw [hguard]
      cases result <;> rfl

theorem translated_eq {e : Thrown}
    (he : e = tokenIsMissing ∨ e = tokenIsInvalid ∨ e = .denyListUnavailable) :
    (if isMissingTokenError e then tokenIsInvalid else e) =
      if e = .denyListUnavailable then e else tokenIsInvalid := by
  rcases he with rfl | rfl | rfl
  · rw [if_neg (nofun : tokenIsMissing ≠ .denyListUnavailable)]
    exact if_pos (by simp [isMissingTokenError, tokenIsMissing])
  · rw [if_neg (nofun : tokenIsInvalid ≠ .denyListUnavailable), ite_self]
  · rw [if_pos rfl]
    exact if_neg (by simp [isMissingTokenError])

theorem optional_of_not {request : Request} (h : request.authorization ≠ none)
    (hnot : ∀ t claims, ¬ Admissible verify client request t claims) :
    ∃ e, AuthTokenGuard.canActivate ⟨some verify, some client⟩ request = (.error e, request) ∧
      OptionalAuthTokenGuard.canActivate ⟨some verify, some client⟩ request =
        (.error (if e = .denyListUnavailable then e else tokenIsInvalid), request) := by
  obtain ⟨e, he, hguard⟩ := canActivate_of_not hnot
  refine ⟨e, hguard, ?_⟩
  rw [optional_of_present h hguard, ← translated_eq he, Except.mapError]

section

variable {request : Request}

theorem canActivate_ok_iff :
    (AuthTokenGuard.canActivate ⟨some verify, some client⟩ request).1 = .ok true ↔
      ∃ t claims, Admissible verify client request t claims := by
  constructor
  · intro h
    by_contra hex
    have hnot : ∀ t claims, ¬ Admissible verify client request t claims :=
      fun t claims h => hex ⟨t, claims, h⟩
    obtain ⟨e, -, hguard⟩ := canActivate_of_not hnot
    rw [hguard] at h
    cases h
  · rintro ⟨t, claims, h⟩
    rw [canActivate_of_admissible h]

theorem auth_of_admissible (h : Admissible verify client request t claims) : ∃ auth,
    (AuthTokenGuard.canActivate ⟨some verify, some client⟩ request).2 =
      { request with auth := some auth } ∧
    auth.get "token".toList = .string t ∧
    ∀ name, name ≠ "token".toList → auth.get name = claims.get name := by
  rw [canActivate_of_admissible h]
  exact ⟨authOf t claims, rfl, JsValue.get_setProperty_self _, fun _ => get_authOf h.wellFormed⟩

theorem canActivate_refused
    (h : (AuthTokenGuard.canActivate ⟨some verify, some client⟩ request).1 ≠ .ok true) :
    (∃ e, (AuthTokenGuard.canActivate ⟨some verify, some client⟩ request).1 = .error e) ∧
      (AuthTokenGuard.canActivate ⟨some verify, some client⟩ request).2 = request := by
  have hnot : ∀ t claims, ¬ Admissible verify client request t claims :=
    fun t claims ha => h (canActivate_ok_iff.mpr ⟨t, claims, ha⟩)
  obtain ⟨e, -, hguard⟩ := canActivate_of_not hnot
  rw [hguard]
  exact ⟨⟨e, rfl⟩, rfl⟩

theorem optional_of_absent {service : AuthService} (h : request.authorization = none) :
    OptionalAuthTokenGuard.canActivate service request = (.ok true, request) := by
  simp only [OptionalAuthTokenGuard.canActivate, h]

theorem optional_agrees (h : request.authorization ≠ none) :
    let guarded := AuthTokenGuard.canActivate ⟨some verify, some client⟩ request
    let optional := OptionalAuthTokenGuard.canActivate ⟨some verify, some client⟩ request
    optional.2 = guarded.2 ∧ (optional.1 = .ok true ↔ guarded.1 = .ok true) ∧
      ∀ e, guarded.1 = .error e →
        optional.1 = .error (if e = .denyListUnavailable then e else tokenIsInvalid) := by
  intro guarded optional
  by_cases hex : ∃ t claims, Admissible verify client request t claims
  · obtain ⟨t, claims, hadm⟩ := hex
    have hguard : guarded = _ := canActivate_of_admissible hadm
    have hoptional : optional = _ := optional_of_present h hguard
    rw [hoptional, hguard]
    exact ⟨rfl, Iff.rfl, nofun⟩
  · have hnot : ∀ t claims, ¬ Admissible verify client request t claims :=
      fun t claims hadm => hex ⟨t, claims, hadm⟩
    obtain ⟨e, hguard, hoptional⟩ := optional_of_not h hnot
    rw [show guarded = _ from hguard, show optional = _ from hoptional]
    refine ⟨rfl, ⟨nofun, nofun⟩, ?_⟩
    rintro _ ⟨⟩
    rfl

end

/-- **The authentication gate.**  The guard admits a request exactly when its header is the scheme
and a token that is verified with token claims and not denied, and gives it these claims with the
token; it throws on every other request, and leaves it as it is.  The optional guard lets a request
without a header pass as it is, and does with every other what the guard does, except that a missing
token is an invalid one. -/
theorem gate (verify : Str → Except Thrown JsValue) (client : TokenDenyListClient)
    (request : Request) :
    let service : AuthService := ⟨some verify, some client⟩
    let guarded := AuthTokenGuard.canActivate service request
    let optional := OptionalAuthTokenGuard.canActivate service request
    (guarded.1 = .ok true ↔ ∃ t claims, Admissible verify client request t claims) ∧
    (∀ t claims, Admissible verify client request t claims → ∃ auth,
      guarded.2 = { request with auth := some auth } ∧ auth.get "token".toList = .string t ∧
        ∀ name, name ≠ "token".toList → auth.get name = claims.get name) ∧
    (guarded.1 ≠ .ok true → (∃ e, guarded.1 = .error e) ∧ guarded.2 = request) ∧
    (request.authorization = none → optional = (.ok true, request)) ∧
    (request.authorization ≠ none → optional.2 = guarded.2 ∧
      (optional.1 = .ok true ↔ guarded.1 = .ok true) ∧
      ∀ e, guarded.1 = .error e →
        optional.1 = .error (if e = .denyListUnavailable then e else tokenIsInvalid)) := by
  intro service guarded optional
  exact ⟨canActivate_ok_iff, fun _ _ => auth_of_admissible, canActivate_refused, optional_of_absent,
    optional_agrees⟩

end

end MediumClone.Auth.Gate
