import MediumClone.Blog.Requests

/-!
# Blog — Http

Requests over HTTP, from the header to the answer: guard, pipes, service, and `ApiExceptionFilter`
for what any of them throws (`respond`).

Above it is what clients are told (`Answers`): a request without the token that its route asks for
is unauthorized, one that the pipes refuse is unprocessable, and every other is answered as the
world answers its call, for the user whom the token names, or fails for values that PostgreSQL does
not take.  A refusal has a status and one message (`Refusal.response`).

`http_history`: the application refines this.
-/

noncomputable section

namespace MediumClone.Blog
open Js Sys Schema Articles Comments Profiles
open Filters (Exception HttpException formatApiException)
open Auth.Sessions (ofThrown subOf)
open Validation (Piped ValidationErrors)

/-! ### What is thrown -/

def tokenIsInvalid : Exception := HttpException 401 "token" "is invalid"

def requestFailed : Exception := HttpException 500 "body" "request failed"

/-- The exception that an error of a service is. -/
def Refusal.exception : Refusal → Exception
  | .article .articleNotFound | .article .updateArticleNotFound
  | .article .favoriteArticleNotFound | .comment .commentArticleNotFound =>
    HttpException 404 "article" "not found"
  | .article .articleViewerNotFound | .article .updateUserNotFound
  | .article .favoriteUserNotFound | .comment .commentUserNotFound => tokenIsInvalid
  | .article .updateForbidden => HttpException 403 "article" "forbidden"
  | .article .updatePersistence | .comment .commentPersistence => requestFailed
  | .comment .commentNotFound => HttpException 404 "comment" "not found"
  | .comment .commentForbidden => HttpException 403 "comment" "forbidden"
  | _ => .other

/-- The `catch` of `ArticlesController.create`. -/
def ArticlesController.catchCreate : Refusal → Exception
  | .article .articleAuthorNotFound => tokenIsInvalid
  | .article .articleSlugConflict => HttpException 409 "slug" "has already been taken"
  | .article .articleCreatePersistence => requestFailed
  | error => error.exception

/-- The `catch` of `ArticlesController.delete`. -/
def ArticlesController.catchDelete : Refusal → Exception
  | .article .deleteUserNotFound => tokenIsInvalid
  | .article .deleteArticleNotFound => HttpException 404 "article" "not found"
  | .article .deleteForbidden => HttpException 403 "article" "forbidden"
  | _ => requestFailed

def ArticlesController.handleArticleListError : Refusal → Exception
  | .list .viewerNotFound => tokenIsInvalid
  | .list .validation => HttpException 422 "query" "is invalid"
  | .list .persistence => requestFailed
  | error => error.exception

def profileNotFound : Exception := HttpException 404 "profile" "not found"

/-- What `ProfilesController.getProfile` throws: its own exception, or what the look-up throws. -/
def ProfilesController.thrown : Refusal → Exception
  | .profile .profileNotFound => profileNotFound
  | error => error.exception

/-- The `catch` of `ProfilesController.followProfile`. -/
def ProfilesController.catchFollow : Refusal → Exception
  | .profile .profileNotFound => profileNotFound
  | .profile .selfFollow => HttpException 422 "profile" "cannot follow yourself"
  | error => error.exception

/-- The `catch` of `ProfilesController.unfollowProfile`. -/
def ProfilesController.catchUnfollow : Refusal → Exception
  | .profile .profileNotFound => profileNotFound
  | error => error.exception

/-- What the method of the route throws where its service throws. -/
def Route.exception : Route → Refusal → Exception
  | .listArticles _ | .feedArticles _ => ArticlesController.handleArticleListError
  | .createArticle _ => ArticlesController.catchCreate
  | .deleteArticle _ => ArticlesController.catchDelete
  | .followProfile _ => ProfilesController.catchFollow
  | .unfollowProfile _ => ProfilesController.catchUnfollow
  | .getProfile _ => ProfilesController.thrown
  | .getArticle _ | .updateArticle _ _ | .createFavorite _ | .deleteFavorite _ | .listComments _
  | .createComment _ _ | .deleteComment _ _ => Refusal.exception

/-! ### Answers -/

/-- An answer: the value that the method returns, or `errors`. -/
structure Response where
  status : ℕ
  body : Except Filters.Errors Answer

/-- The status of the route, by its `HttpCode` and its method. -/
def Route.status : Route → ℕ
  | .createArticle _ | .createComment _ _ => 201
  | .deleteArticle _ | .deleteComment _ _ => 204
  | _ => 200

theorem Route.status_lt (route : Route) : route.status < 300 := by
  unfold Route.status
  split <;> omega

/-- `ApiExceptionFilter.catch`. -/
def failure (exception : Exception) : Response :=
  let formatted := formatApiException exception
  { status := formatted.statusCode
    body := .error formatted.errors }

/-- `ArticleCreateService.create` with an array for the article: after the look-up of the author
`createArticleSlug(undefined)` throws a `TypeError`. -/
def createArray (db : Tables) (username : Str) : Refusal :=
  if isText username ∧ (db.findUser username).isNone then .article .articleAuthorNotFound
  else .article .articleCreatePersistence

/-- What the service makes of it. -/
def Platform.invoke (P : Platform) (db : Tables) (now : Timestamp) :
    Invocation → Except Refusal Answer × Tables
  | .call call => P.perform db ⟨now, call⟩
  | .createArray username => (.error (createArray db username), db)

/-- The request from its guard to its answer, with the tables after it. -/
def respond (P : Platform) (db : Tables) (r : HttpRequest) : Response × Tables :=
  match r.route.guard.canActivate r.authService ⟨r.authorization, none⟩ with
  | (.error thrown, _) => (failure (ofThrown thrown), db)
  | (.ok _, request) =>
    match r.route.invocation P r.drawn (request.auth.map subOf) with
    | .error exception => (failure exception, db)
    | .ok invocation =>
      match P.invoke db r.now invocation with
      | (.ok answer, db) => ({ status := r.route.status, body := .ok answer }, db)
      | (.error refusal, db) => (failure (r.route.exception refusal), db)

/-! ### What clients are told -/

/-- Errors with one message. -/
def problem (status : ℕ) (field message : String) : Response where
  status := status
  body := .error [(field.toList, [message.toList])]

/-- What a client is told of a refusal. -/
def Refusal.response : Refusal → Response
  | .article .articleAuthorNotFound | .article .articleViewerNotFound
  | .article .updateUserNotFound | .article .deleteUserNotFound | .article .favoriteUserNotFound
  | .comment .commentUserNotFound | .list .viewerNotFound => problem 401 "token" "is invalid"
  | .article .updateForbidden | .article .deleteForbidden => problem 403 "article" "forbidden"
  | .comment .commentForbidden => problem 403 "comment" "forbidden"
  | .article .articleNotFound | .article .updateArticleNotFound | .article .deleteArticleNotFound
  | .article .favoriteArticleNotFound | .comment .commentArticleNotFound =>
    problem 404 "article" "not found"
  | .comment .commentNotFound => problem 404 "comment" "not found"
  | .profile .profileNotFound => problem 404 "profile" "not found"
  | .article .articleSlugConflict => problem 409 "slug" "has already been taken"
  | .profile .selfFollow => problem 422 "profile" "cannot follow yourself"
  | .list .validation => problem 422 "query" "is invalid"
  | .article .articleCreatePersistence | .article .updatePersistence
  | .article .deletePersistence | .comment .commentPersistence | .list .persistence =>
    problem 500 "body" "request failed"
  | .article .tagPersistence | .article .queryFailed | .comment .queryFailed
  | .list .queryPersistence | .profile .queryFailed => problem 500 "body" "internal server error"

/-- The header has a token of the user, which is verified and not denied. -/
def HttpRequest.ShowsToken (r : HttpRequest) (username : Str) : Prop :=
  ∃ header t claims, r.authorization = some header ∧
    Auth.Gate.TwoWords (trim header) Auth.Gate.AUTH_TOKEN_SCHEME t ∧ r.verify t = some claims ∧
    Auth.Gate.TokenClaims claims ∧ claims.get "sub".toList = .string username ∧
    ∀ id, claims.get "jti".toList = .string id → r.client (Auth.Gate.key id) = some none

/-- Whom the request is from, where its route lets it in: a user, or no one it knows. -/
inductive HttpRequest.From (r : HttpRequest) : Option Str → Prop where
  | user {username : Str} (hguard : r.route.guard ≠ .unguarded) (h : r.ShowsToken username) :
      r.From (some username)
  | anyone (hguard : r.route.guard = .unguarded) : r.From none
  | anonymous (hguard : r.route.guard = .optional) (h : r.authorization = none) : r.From none

/-- The header has a verified token, for whose look-up the deny list does not reply. -/
def HttpRequest.Unanswered (r : HttpRequest) : Prop :=
  ∃ header t claims, r.authorization = some header ∧
    Auth.Gate.TwoWords (trim header) Auth.Gate.AUTH_TOKEN_SCHEME t ∧ r.verify t = some claims ∧
    Auth.Gate.TokenClaims claims ∧ r.client (Auth.Gate.key (Auth.Gate.jti claims)) = none

/-- What a request from no one is told. -/
def HttpRequest.Unauthorized (r : HttpRequest) (response : Response) : Prop :=
  r.Unanswered ∧ response = problem 500 "body" "internal server error" ∨
    ¬ r.Unanswered ∧ (response = problem 401 "token" "is invalid" ∨
      response = problem 401 "token" "is missing" ∧ r.route.guard = .required)

/-- What an invocation comes to in the world. -/
inductive Platform.Invokes (P : Platform) (w : World) (now : Timestamp) :
    Invocation → Except Refusal Answer → World → Prop where
  | call {call : Call} {result : Except Refusal Answer} {w' : World}
      (h : P.Performs w ⟨now, call⟩ result w') : P.Invokes w now (.call call) result w'
  | noAuthor {username : Str} (htext : isText username) (h : w.account username = none) :
      P.Invokes w now (.createArray username) (.error (.article .articleAuthorNotFound)) w
  | noArticle {username : Str} (h : isText username → (w.account username).isSome) :
      P.Invokes w now (.createArray username) (.error (.article .articleCreatePersistence)) w

/-- In the world `w` the request may be answered so, and leave `w'`. -/
inductive Answers (P : Platform) (w : World) (r : HttpRequest) (response : Response) (w' : World) :
    Prop where
  | unauthorized (hfrom : ∀ username, ¬ r.From username) (h : r.Unauthorized response)
      (hsame : w' = w)
  | unprocessable {username : Option Str} {exception : Exception} {errors : Filters.Errors}
      (hfrom : r.From username) (hcall : r.route.invocation P r.drawn username = .error exception)
      (h : response = { status := 422, body := .error errors }) (hsame : w' = w)
  | accepted {username : Option Str} {invocation : Invocation} {answer : Answer}
      (hfrom : r.From username) (hcall : r.route.invocation P r.drawn username = .ok invocation)
      (hinvokes : P.Invokes w r.now invocation (.ok answer) w')
      (h : response = { status := r.route.status, body := .ok answer })
  | refused {username : Option Str} {invocation : Invocation} {refusal : Refusal}
      (hfrom : r.From username) (hcall : r.route.invocation P r.drawn username = .ok invocation)
      (hinvokes : P.Invokes w r.now invocation (.error refusal) w')
      (h : response = refusal.response)

/-! ### The guards -/

section

open Auth.Gate (Thrown Admissible AuthTokenGuard.canActivate OptionalAuthTokenGuard.canActivate)

variable {r : HttpRequest} {t : Str} {claims : JsValue}

/-- What the guards find on the request. -/
def HttpRequest.guarded (r : HttpRequest) : Auth.Gate.Request := ⟨r.authorization, none⟩

/-- The verifier of the service. -/
def HttpRequest.verifier (r : HttpRequest) (token : Str) : Except Thrown JsValue :=
  (r.verify token).elim (.error .other) .ok

theorem verifier_eq_ok : r.verifier t = .ok claims ↔ r.verify t = some claims := by
  rw [HttpRequest.verifier]
  cases r.verify t <;> simp

theorem showsToken_iff {username : Str} : r.ShowsToken username ↔
    ∃ t claims, Admissible r.verifier r.client r.guarded t claims ∧
      claims.get "sub".toList = .string username := by
  constructor
  · rintro ⟨header, t, claims, hheader, hwords, hverify, hclaims, hsub, hdenied⟩
    exact ⟨t, claims, ⟨⟨header, hheader, hwords⟩, verifier_eq_ok.mpr hverify, hclaims, hdenied⟩,
      hsub⟩
  · rintro ⟨t, claims, ⟨⟨header, hheader, hwords⟩, hverify, hclaims, hdenied⟩, hsub⟩
    exact ⟨header, t, claims, hheader, hwords, verifier_eq_ok.mp hverify, hclaims, hsub, hdenied⟩

/-- An admissible token names its user, whom the controller is given. -/
theorem showsToken_of_admissible (h : Admissible r.verifier r.client r.guarded t claims) :
    r.ShowsToken (subOf (Auth.Gate.authOf t claims)) := by
  obtain ⟨username, -, hsub⟩ := h.wellFormed.sub
  refine showsToken_iff.mpr ⟨t, claims, h, ?_⟩
  rw [subOf, Auth.Gate.get_authOf h.wellFormed (by decide), hsub]

theorem check_unavailable_iff :
    r.authService.check (r.verifier t) = .error .denyListUnavailable ↔
      ∃ claims, r.verify t = some claims ∧ Auth.Gate.TokenClaims claims ∧
        r.client (Auth.Gate.key (Auth.Gate.jti claims)) = none := by
  cases hverify : r.verify t with
  | none =>
      rw [HttpRequest.verifier, hverify]
      refine iff_of_false (fun h => by cases h) ?_
      rintro ⟨_, h, -⟩
      cases h
  | some claims =>
      rw [verifier_eq_ok.mpr hverify]
      simp only [Option.some.injEq, exists_eq_left', ← Auth.Gate.isTokenClaims_iff]
      cases hclaims : Auth.Gate.isTokenClaims claims with
      | false =>
          rw [HttpRequest.authService, Auth.Gate.check_not hclaims]
          simp
      | true =>
          rw [HttpRequest.authService, Auth.Gate.check_ok hclaims]
          split <;> simp_all

theorem authenticate_unavailable_iff :
    r.authService.authenticate t = .error .denyListUnavailable ↔
      ∃ claims, r.verify t = some claims ∧ Auth.Gate.TokenClaims claims ∧
        r.client (Auth.Gate.key (Auth.Gate.jti claims)) = none := by
  rw [← check_unavailable_iff]
  exact @Auth.Gate.authenticate_eq_unavailable t r.verifier (some r.client)

/-- The guard fails for the deny list exactly where this does not reply. -/
theorem unanswered_iff :
    (∃ request, AuthTokenGuard.canActivate r.authService r.guarded =
      (.error .denyListUnavailable, request)) ↔ r.Unanswered := by
  rw [AuthTokenGuard.canActivate, show r.guarded.authorization = r.authorization from rfl]
  cases htoken : Auth.Gate.getToken r.authorization with
  | none =>
      refine iff_of_false ?_ ?_
      · rintro ⟨_, h⟩
        cases h
      · rintro ⟨header, t, -, hheader, hwords, -⟩
        rw [Auth.Gate.getToken_eq_some.mpr ⟨header, hheader, hwords⟩] at htoken
        cases htoken
  | some t =>
      have hsame : r.Unanswered ↔ r.authService.authenticate t = .error .denyListUnavailable := by
        rw [authenticate_unavailable_iff]
        constructor
        · rintro ⟨header, t', claims, hheader, hwords, h⟩
          rw [Auth.Gate.getToken_eq_some.mpr ⟨header, hheader, hwords⟩] at htoken
          cases htoken
          exact ⟨claims, h⟩
        · rintro ⟨claims, h⟩
          obtain ⟨header, hheader, hwords⟩ := Auth.Gate.getToken_eq_some.mp htoken
          exact ⟨header, t, claims, hheader, hwords, h⟩
      rw [hsame]
      dsimp only
      split <;> simp_all [Auth.Gate.tokenIsInvalid]

/-- Without an admissible token the guard throws, and says so. -/
theorem canActivate_of_no_token (h : ∀ username, ¬ r.ShowsToken username) :
    ∃ e, AuthTokenGuard.canActivate r.authService r.guarded = (.error e, r.guarded) ∧
      (r.Unanswered ∧ e = .denyListUnavailable ∨
        ¬ r.Unanswered ∧ (e = Auth.Gate.tokenIsMissing ∨ e = Auth.Gate.tokenIsInvalid)) := by
  have hnot : ∀ t claims, ¬ Admissible r.verifier r.client r.guarded t claims :=
    fun t claims hadm => h _ (showsToken_of_admissible hadm)
  obtain ⟨e, he, hguard⟩ := Auth.Gate.canActivate_of_not hnot
  refine ⟨e, hguard, ?_⟩
  have hiff : r.Unanswered ↔ e = .denyListUnavailable := by
    rw [← unanswered_iff, show AuthTokenGuard.canActivate r.authService r.guarded = _ from hguard]
    simp
  by_cases hunanswered : r.Unanswered
  · exact .inl ⟨hunanswered, hiff.mp hunanswered⟩
  · refine .inr ⟨hunanswered, ?_⟩
    rcases he with rfl | rfl | rfl
    · exact .inl rfl
    · exact .inr rfl
    · exact absurd (hiff.mpr rfl) hunanswered

theorem canActivate_of_token {username : Str} (h : r.ShowsToken username) : ∃ request,
    AuthTokenGuard.canActivate r.authService r.guarded = (.ok true, request) ∧
      request.auth.map subOf = some username := by
  obtain ⟨t, claims, hadm, hsub⟩ := showsToken_iff.mp h
  refine ⟨_, Auth.Gate.canActivate_of_admissible hadm, ?_⟩
  change some (subOf (Auth.Gate.authOf t claims)) = _
  rw [subOf, Auth.Gate.get_authOf hadm.wellFormed (by decide), hsub]

/-- The guard of a route lets a request in with its user, or tells it that it is unauthorized. -/
theorem canActivate_cases (r : HttpRequest) :
    (∃ request, r.route.guard.canActivate r.authService r.guarded = (.ok true, request) ∧
      r.From (request.auth.map subOf)) ∨
    ∃ e request, r.route.guard.canActivate r.authService r.guarded = (.error e, request) ∧
      (∀ username, ¬ r.From username) ∧ r.Unauthorized (failure (ofThrown e)) := by
  cases hguard : r.route.guard with
  | unguarded => exact .inl ⟨r.guarded, rfl, .anyone hguard⟩
  | required =>
      by_cases htoken : ∃ username, r.ShowsToken username
      · obtain ⟨username, htoken⟩ := htoken
        obtain ⟨request, hactivate, hsub⟩ := canActivate_of_token htoken
        refine .inl ⟨request, hactivate, hsub ▸ .user ?_ htoken⟩
        rw [hguard]
        exact nofun
      · obtain ⟨e, hactivate, he⟩ := canActivate_of_no_token (not_exists.mp htoken)
        refine .inr ⟨e, _, hactivate, ?_, ?_⟩
        · intro username hfrom
          cases hfrom with
          | user _ h => exact htoken ⟨_, h⟩
          | anyone h | anonymous h =>
              rw [hguard] at h
              cases h
        · rcases he with ⟨hunanswered, rfl⟩ | ⟨hanswered, rfl | rfl⟩
          · exact .inl ⟨hunanswered, rfl⟩
          · exact .inr ⟨hanswered, .inr ⟨rfl, hguard⟩⟩
          · exact .inr ⟨hanswered, .inl rfl⟩
  | optional =>
      by_cases hnone : r.authorization = none
      · exact .inl ⟨r.guarded, Auth.Gate.optional_of_absent hnone, .anonymous hguard hnone⟩
      · by_cases htoken : ∃ username, r.ShowsToken username
        · obtain ⟨username, htoken⟩ := htoken
          obtain ⟨request, hactivate, hsub⟩ := canActivate_of_token htoken
          refine .inl ⟨request, Auth.Gate.optional_of_present hnone hactivate,
            hsub ▸ .user ?_ htoken⟩
          rw [hguard]
          exact nofun
        · obtain ⟨e, hactivate, he⟩ := canActivate_of_no_token (not_exists.mp htoken)
          refine .inr ⟨_, _, Auth.Gate.optional_of_present hnone hactivate, ?_, ?_⟩
          · intro username hfrom
            cases hfrom with
            | user _ h => exact htoken ⟨_, h⟩
            | anyone h =>
                rw [hguard] at h
                cases h
            | anonymous _ h => exact hnone h
          · rcases he with ⟨hunanswered, rfl⟩ | ⟨hanswered, rfl | rfl⟩
            · exact .inl ⟨hunanswered, rfl⟩
            -- the optional guard has a missing token for an invalid one
            · exact .inr ⟨hanswered, .inl rfl⟩
            · exact .inr ⟨hanswered, .inl rfl⟩

end

/-! ### The pipes -/

section

variable {P : Platform} {drawn : Drawn} {username : Option Str} {route : Route}
  {exception : Exception}

theorem failure_of_pipe {α : Type} {body : Piped α} (h : pipe body = .error exception) :
    ∃ errors, failure exception = { status := 422, body := .error errors } := by
  cases body with
  | ok value => cases h
  | error errors =>
      cases h
      have hformat := Filters.formatApiException_badRequest errors.ordinary errors.constrained
      refine ⟨(formatApiException errors.exception).errors, ?_⟩
      simp only [failure, ValidationErrors.exception, hformat]

theorem failure_of_map {α : Type} {body : Piped α} {f : α → Invocation}
    (h : (pipe body).map f = .error exception) :
    ∃ errors, failure exception = { status := 422, body := .error errors } := by
  cases hpipe : pipe body with
  | ok value =>
      rw [hpipe] at h
      cases h
  | error e =>
      rw [hpipe] at h
      cases h
      exact failure_of_pipe hpipe

/-- What the pipes refuse is unprocessable. -/
theorem failure_of_invocation (h : route.invocation P drawn username = .error exception) :
    ∃ errors, failure exception = { status := 422, body := .error errors } := by
  cases route with
  | listArticles | feedArticles | createArticle | updateArticle | createComment =>
      exact failure_of_map h
  | deleteComment slug id =>
      rw [Route.invocation] at h
      split at h
      · cases h
      · cases h
        exact ⟨_, rfl⟩
  | getArticle | deleteArticle | createFavorite | deleteFavorite | listComments | getProfile
  | followProfile | unfollowProfile => cases h

end

/-! ### The services -/

/-- The call that a route makes for the user `sub`; for a page only one that the service takes. -/
inductive Route.Makes (sub : Option Str) : Route → Call → Prop where
  | listArticles {query dto} (h : validPage dto.offset dto.limit) :
      Makes sub (.listArticles query) (.listArticles dto sub)
  | feedArticles {query dto} (h : validPage dto.offset dto.limit) :
      Makes sub (.feedArticles query) (.feedArticles dto (sub.getD []))
  | getArticle {slug} : Makes sub (.getArticle slug) (.getArticle slug sub)
  | createArticle {body call} (h : call.username = sub.getD []) :
      Makes sub (.createArticle body) (.createArticle call)
  | updateArticle {slug body call} (h : call.username = sub.getD []) :
      Makes sub (.updateArticle slug body) (.updateArticle call)
  | deleteArticle {slug} : Makes sub (.deleteArticle slug) (.deleteArticle slug (sub.getD []))
  | createFavorite {slug} : Makes sub (.createFavorite slug) (.createFavorite slug (sub.getD []))
  | deleteFavorite {slug} : Makes sub (.deleteFavorite slug) (.deleteFavorite slug (sub.getD []))
  | listComments {slug} : Makes sub (.listComments slug) (.listComments slug sub)
  | createComment {slug body call} (h : call.username = sub.getD []) :
      Makes sub (.createComment slug body) (.createComment call)
  | deleteComment {slug id commentId} :
      Makes sub (.deleteComment slug id) (.deleteComment slug commentId (sub.getD []))
  | getProfile {username} : Makes sub (.getProfile username) (.getProfile username)
  | followProfile {username} : Makes sub (.followProfile username) (.follow (sub.getD []) username)
  | unfollowProfile {username} :
      Makes sub (.unfollowProfile username) (.unfollow (sub.getD []) username)

section

variable {P : Platform} {d d' : Tables} {w w' : World} {drawn : Drawn} {sub : Option Str}
  {route : Route} {now : Timestamp} {call : Call} {refusal : Refusal} {username : Str}
  {invocation : Invocation} {result : Except Refusal Answer}

theorem invocation_of_pipe {α : Type} {body : Piped α} {f : α → Invocation}
    (h : (pipe body).map f = .ok invocation) :
    ∃ value, body = .ok value ∧ invocation = f value := by
  cases body with
  | ok value =>
      cases h
      exact ⟨value, rfl, rfl⟩
  | error errors => cases h

theorem makes_of_invocation (h : route.invocation P drawn sub = .ok (.call call)) :
    route.Makes sub call := by
  cases route with
  | listArticles =>
      obtain ⟨_, hquery, ⟨⟩⟩ := invocation_of_pipe h
      exact .listArticles (validPage_of_listQueryDto hquery)
  | feedArticles =>
      obtain ⟨_, hquery, ⟨⟩⟩ := invocation_of_pipe h
      exact .feedArticles (validPage_of_paginationDto hquery)
  | createArticle =>
      obtain ⟨request, -, heq⟩ := invocation_of_pipe h
      cases request with
      | none => cases heq
      | some request =>
          cases heq
          exact .createArticle rfl
  | updateArticle =>
      obtain ⟨_, -, ⟨⟩⟩ := invocation_of_pipe h
      exact .updateArticle rfl
  | createComment =>
      obtain ⟨_, -, ⟨⟩⟩ := invocation_of_pipe h
      exact .createComment rfl
  | deleteComment =>
      rw [Route.invocation] at h
      split at h
      · cases h
        exact .deleteComment
      · cases h
  | _ =>
      cases h
      constructor

/-- Only a create is given an array, and only with one in its body. -/
theorem createArray_of_invocation (h : route.invocation P drawn sub = .ok (.createArray username)) :
    ∃ body items, route = .createArticle body ∧ body.get "article".toList = .array items := by
  cases route with
  | createArticle body =>
      obtain ⟨request, hbody, heq⟩ := invocation_of_pipe h
      cases request with
      | none =>
          obtain ⟨items, hitems⟩ := Validation.array_of_read hbody
          exact ⟨body, items, rfl, hitems⟩
      | some request => cases heq
  | listArticles | feedArticles | updateArticle | createComment =>
      obtain ⟨_, -, ⟨⟩⟩ := invocation_of_pipe h
  | deleteComment =>
      rw [Route.invocation] at h
      split at h <;> cases h
  | _ => cases h

theorem mem_of_firstFailure {ρ : Type} {checks : List (Prop × ρ)} {x : ρ}
    (h : firstFailure checks = some x) : x ∈ checks.map Prod.snd := by
  induction checks with
  | nil => cases h
  | cons c checks ih =>
      obtain ⟨check, y⟩ := c
      rw [firstFailure_cons] at h
      split at h
      · exact List.mem_cons_of_mem _ (ih h)
      · cases h
        exact List.mem_cons_self

theorem forall_of_firstFailure {ρ : Type} {checks : List (Prop × ρ)}
    (h : firstFailure checks = none) : ∀ c ∈ checks, c.1 := by
  induction checks with
  | nil => exact fun _ => nofun
  | cons c checks ih =>
      obtain ⟨check, x⟩ := c
      rw [firstFailure_cons] at h
      split at h
      · exact List.forall_mem_cons.mpr ⟨‹check›, ih h⟩
      · cases h

/-- The checks of a call that is not refused all hold. -/
theorem checks_of_not_refused (h : w.refusal call = none) : ∀ c ∈ w.checks call, c.1 :=
  forall_of_firstFailure h

/-- A call that ends in an error has a value that PostgreSQL does not take, fails a check, or fails
for what it draws. -/
theorem mem_of_performs (h : P.Performs w ⟨now, call⟩ (.error refusal) w') :
    refusal = call.rejection ∨ refusal ∈ (w.checks call).map Prod.snd ∨
      call.failure = some refusal := by
  rw [Platform.Performs] at h
  split at h
  · exact .inl (Except.error.inj h.1)
  · exact .inr (h.2.imp mem_of_firstFailure And.right)

/-- The controller tells the client of every refusal that its service has. -/
theorem failure_exception (hmakes : route.Makes sub call)
    (h : P.Performs w ⟨now, call⟩ (.error refusal) w') :
    failure (route.exception refusal) = refusal.response := by
  have hmem := mem_of_performs h
  cases hmakes with
  | updateArticle =>
      -- it fails for what it draws only where it has tags to write
      simp only [World.checks, Call.failure, Call.rejection, List.map_cons, List.map_nil,
        List.mem_cons, List.not_mem_nil, or_false, Option.ite_none_right_eq_some,
        Option.some.injEq] at hmem
      rcases hmem with rfl | (rfl | rfl | rfl) | ⟨-, rfl⟩ <;> rfl
  | _ =>
      simp only [World.checks, World.favoriteChecks, Call.failure, Call.rejection, List.map_cons,
        List.map_nil, List.mem_cons, List.not_mem_nil, or_false, Option.some.injEq,
        reduceCtorEq] at hmem
      casesm* _ ∨ _ <;> subst hmem <;> rfl

theorem performs_of_perform {e : Request} (h : P.perform d e = (result, d')) :
    P.Performs (world d) e result (world d') := by
  have hperforms := performs_platform P d e
  rwa [h] at hperforms

theorem invokes_of_invoke (h : P.invoke d now invocation = (result, d')) :
    P.Invokes (world d) now invocation result (world d') := by
  cases invocation with
  | call => exact .call (performs_of_perform h)
  | createArray username =>
      cases h
      -- the author is looked up before the article is read
      by_cases hnone : isText username ∧ (d.findUser username).isNone
      · rw [createArray, if_pos hnone]
        refine .noAuthor hnone.1 ?_
        rw [toContent_world, account_eq, Option.isNone_iff_eq_none.mp hnone.2]
        rfl
      · rw [createArray, if_neg hnone]
        refine .noArticle fun htext => ?_
        rw [toContent_world, account_eq, Option.isSome_map, Option.isSome_iff_ne_none]
        exact fun hfound => hnone ⟨htext, Option.isNone_iff_eq_none.mpr hfound⟩

/-- The client is told of what the service makes of an invocation. -/
theorem failure_of_invokes (hcall : route.invocation P drawn sub = .ok invocation)
    (h : P.Invokes w now invocation (.error refusal) w') :
    failure (route.exception refusal) = refusal.response := by
  cases h with
  | call h => exact failure_exception (makes_of_invocation hcall) h
  | noAuthor | noArticle =>
      obtain ⟨body, -, rfl, -⟩ := createArray_of_invocation hcall
      rfl

end

/-! ### Every history -/

/-- What a request comes to: the answer, with the tables after it. -/
inductive Responded (P : Platform) (d : Tables) (r : HttpRequest) : Response × Tables → Prop where
  | unauthorized {response : Response} (hfrom : ∀ username, ¬ r.From username)
      (h : r.Unauthorized response) : Responded P d r (response, d)
  | unprocessable {username : Option Str} {exception : Exception} {errors : Filters.Errors}
      (hfrom : r.From username) (hcall : r.route.invocation P r.drawn username = .error exception) :
      Responded P d r ({ status := 422, body := .error errors }, d)
  | accepted {username : Option Str} {invocation : Invocation} {answer : Answer} {d' : Tables}
      (hfrom : r.From username) (hcall : r.route.invocation P r.drawn username = .ok invocation)
      (hinvoke : P.invoke d r.now invocation = (.ok answer, d')) :
      Responded P d r ({ status := r.route.status, body := .ok answer }, d')
  | refused {username : Option Str} {invocation : Invocation} {refusal : Refusal} {d' : Tables}
      (hfrom : r.From username) (hcall : r.route.invocation P r.drawn username = .ok invocation)
      (hinvoke : P.invoke d r.now invocation = (.error refusal, d')) :
      Responded P d r (refusal.response, d')

theorem responded (P : Platform) (d : Tables) (r : HttpRequest) :
    Responded P d r (respond P d r) := by
  rw [respond, show (⟨r.authorization, none⟩ : Auth.Gate.Request) = r.guarded from rfl]
  obtain ⟨request, hguard, hfrom⟩ | ⟨e, request, hguard, hfrom, hresponse⟩ := canActivate_cases r
  · rw [hguard]
    dsimp only
    cases hcall : r.route.invocation P r.drawn (request.auth.map subOf) with
    | error exception =>
        obtain ⟨errors, herrors⟩ := failure_of_invocation hcall
        dsimp only
        rw [herrors]
        exact .unprocessable hfrom hcall
    | ok invocation =>
        dsimp only
        cases hinvoke : P.invoke d r.now invocation with
        | mk result d' =>
            cases result with
            | ok answer => exact .accepted hfrom hcall hinvoke
            | error refusal =>
                dsimp only
                rw [failure_of_invokes hcall (invokes_of_invoke hinvoke)]
                exact .refused hfrom hcall hinvoke
  · rw [hguard]
    exact .unauthorized hfrom hresponse

/-- The application refines what clients are told. -/
theorem respond_answers (P : Platform) (d : Tables) (r : HttpRequest) :
    Answers P (world d) r (respond P d r).1 (world (respond P d r).2) := by
  have hresponded := responded P d r
  generalize respond P d r = x at hresponded
  cases hresponded with
  | unauthorized hfrom h => exact .unauthorized hfrom h rfl
  | unprocessable hfrom hcall => exact .unprocessable hfrom hcall rfl rfl
  | accepted hfrom hcall hinvoke => exact .accepted hfrom hcall (invokes_of_invoke hinvoke) rfl
  | refused hfrom hcall hinvoke => exact .refused hfrom hcall (invokes_of_invoke hinvoke) rfl

/-- The answers refine, over a whole history. -/
theorem refines_answers (P : Platform) : Refines (Answers P) (respond P) world := respond_answers P

/-- **Every history of HTTP requests is one of the world's answers**, each for the user of its
token, with the status and the errors that clients are told. -/
theorem http_history (P : Platform) (d : Tables) (requests : List HttpRequest) :
    Explains (Answers P) (world d) (serveAll (respond P) d requests).1
      (world (serveAll (respond P) d requests).2) :=
  (refines_answers P).explains

end MediumClone.Blog

end
