import MediumClone.Auth.Sessions
import MediumClone.Blog.Statements

/-!
# Blog — Requests

From an HTTP request to the call of a service: the routes of the controllers in `src/articles`,
`src/comments` and `src/profiles` with their guards, and the pipes for their parameters and bodies.

`ArticlePaginationDto` and `ArticleListQueryDto` (`src/common/dto/article.dto.ts`) are read from the
query here, with `parseQueryInteger`.  Requests that the framework does not route, such as one with
a body that it cannot parse, are left out.

What `ArticleListQueryService` checks of a page has been checked before (`validPage_of_pagination`).
-/

namespace MediumClone.Blog
open Js Articles Schema
open Filters (Exception HttpException ValidationError Constraints)
open Validation (Libraries Piped ValidationErrors validate errorOf whitelistErrors
  constraintCountAll_append ordinaryAll_append ordinaryAll_errorOf validate_ok errorOf_count)

/-! ### Queries -/

/-- A parameter of a query, as the framework parses it. -/
inductive QueryValue where
  | text (s : Str)
  /-- An array or an object. -/
  | nested

/-- The parameters of a query by their names. -/
structure Query where
  entries : List (Str × QueryValue)

def Query.get (query : Query) (name : String) : Option QueryValue :=
  (query.entries.find? fun x => x.1 = name.toList).map Prod.snd

/-- `parseQueryInteger`; `none` is `NaN`. -/
def parseQueryInteger (value : Option QueryValue) (defaultValue : ℕ) : Option ℕ :=
  match value with
  | none => some defaultValue
  | some (.text s) => if isDigits s ∧ isSafeInteger (number s) then some (number s) else none
  | some .nested => none

def constraint (name text : String) : Str × Str := (name.toList, text.toList)

def offsetConstraints : Option ℕ → Constraints
  | none => [constraint "min" "offset must not be less than 0",
      constraint "isInt" "offset must be an integer number"]
  | some _ => []

def limitConstraints : Option ℕ → Constraints
  | none => [constraint "max" "limit must not be greater than 100",
      constraint "min" "limit must not be less than 1",
      constraint "isInt" "limit must be an integer number"]
  | some limit =>
    if 100 < limit then [constraint "max" "limit must not be greater than 100"]
    else if limit < 1 then [constraint "min" "limit must not be less than 1"]
    else []

def textConstraints (name : String) : Option QueryValue → Constraints
  | some .nested => [constraint "isString" (name ++ " must be a string")]
  | _ => []

def paginationErrors (query : Query) : List ValidationError :=
  errorOf "offset".toList (offsetConstraints (parseQueryInteger (query.get "offset") 0)) [] ++
    errorOf "limit".toList (limitConstraints (parseQueryInteger (query.get "limit") 20)) []

def filterErrors (query : Query) : List ValidationError :=
  errorOf "tag".toList (textConstraints "tag" (query.get "tag")) [] ++
    (errorOf "author".toList (textConstraints "author" (query.get "author")) [] ++
      errorOf "favorited".toList (textConstraints "favorited" (query.get "favorited")) [])

/-- The errors of the parameters that are no property of the class. -/
def otherErrors (lib : Libraries) (names : List String) (query : Query) : List ValidationError :=
  whitelistErrors lib (names.map String.toList) (query.entries.map Prod.fst)

def textOf : Option QueryValue → Option Str
  | some (.text s) => some s
  | _ => none

/-- A pagination that is not checked yet. -/
def pagination (query : Query) : ArticlePaginationDto where
  offset := (parseQueryInteger (query.get "offset") 0).getD 0
  limit := (parseQueryInteger (query.get "limit") 20).getD 0

section

variable {lib : Libraries} {query : Query} {names : List String}

theorem ordinaryAll_otherErrors : Filters.OrdinaryAll (otherErrors lib names query) :=
  Validation.ordinaryAll_whitelistErrors

theorem ordinaryAll_paginationErrors : Filters.OrdinaryAll (paginationErrors query) :=
  ordinaryAll_append (ordinaryAll_errorOf (by decide) trivial)
    (ordinaryAll_errorOf (by decide) trivial)

theorem ordinaryAll_filterErrors : Filters.OrdinaryAll (filterErrors query) :=
  ordinaryAll_append (ordinaryAll_errorOf (by decide) trivial) <|
    ordinaryAll_append (ordinaryAll_errorOf (by decide) trivial)
      (ordinaryAll_errorOf (by decide) trivial)

end

def ArticlePaginationDto.ofQuery (lib : Libraries) (query : Query) : Piped ArticlePaginationDto :=
  validate (otherErrors lib ["offset", "limit"] query ++ paginationErrors query)
    (ordinaryAll_append ordinaryAll_otherErrors ordinaryAll_paginationErrors) (pagination query)

def ArticleListQueryDto.ofQuery (lib : Libraries) (query : Query) : Piped ArticleListQueryDto :=
  validate (otherErrors lib ["offset", "limit", "tag", "author", "favorited"] query ++
      (filterErrors query ++ paginationErrors query))
    (ordinaryAll_append ordinaryAll_otherErrors
      (ordinaryAll_append ordinaryAll_filterErrors ordinaryAll_paginationErrors))
    { pagination query with
      tag := textOf (query.get "tag")
      author := textOf (query.get "author")
      favorited := textOf (query.get "favorited") }

/-! ### What is let through -/

section

variable {lib : Libraries} {query : Query}

theorem isSafeInteger_of_parse {value : Option QueryValue} {defaultValue n : ℕ}
    (hdefault : isSafeInteger defaultValue) (h : parseQueryInteger value defaultValue = some n) :
    isSafeInteger n := by
  match value, h with
  | none, h => cases h; exact hdefault
  | some (.text s), h =>
      obtain ⟨⟨-, hsafe⟩, h⟩ := Option.ite_none_right_eq_some.mp h
      cases h
      exact hsafe
  | some .nested, h => cases h

/-- **A page that the pipe lets through is one that the service takes.** -/
theorem validPage_of_pagination (h : Filters.constraintCountAll (paginationErrors query) = 0) :
    validPage (pagination query).offset (pagination query).limit := by
  rw [paginationErrors, constraintCountAll_append, Nat.add_eq_zero_iff] at h
  have hoffset := (errorOf_count h.1).1
  have hlimit := (errorOf_count h.2).1
  cases ho : parseQueryInteger (query.get "offset") 0 with
  | none => simp [ho, offsetConstraints] at hoffset
  | some offset =>
      cases hl : parseQueryInteger (query.get "limit") 20 with
      | none => simp [hl, limitConstraints] at hlimit
      | some limit =>
          simp only [pagination, ho, hl, Option.getD_some]
          refine ⟨isSafeInteger_of_parse (by decide) ho, Int.natCast_nonneg _,
            isSafeInteger_of_parse (by decide) hl, ?_⟩
          simp only [hl, limitConstraints] at hlimit
          split at hlimit
          · cases hlimit
          · split at hlimit
            · cases hlimit
            · omega

theorem validPage_of_paginationDto {dto : ArticlePaginationDto}
    (h : ArticlePaginationDto.ofQuery lib query = .ok dto) : validPage dto.offset dto.limit := by
  obtain ⟨hcount, rfl⟩ := validate_ok h
  rw [constraintCountAll_append, Nat.add_eq_zero_iff] at hcount
  exact validPage_of_pagination hcount.2

theorem validPage_of_listQueryDto {dto : ArticleListQueryDto}
    (h : ArticleListQueryDto.ofQuery lib query = .ok dto) : validPage dto.offset dto.limit := by
  obtain ⟨hcount, rfl⟩ := validate_ok h
  rw [constraintCountAll_append, constraintCountAll_append, Nat.add_eq_zero_iff,
    Nat.add_eq_zero_iff] at hcount
  exact validPage_of_pagination hcount.2.2

end

/-! ### Routes -/

inductive Route where
  | listArticles (query : Query)
  | feedArticles (query : Query)
  | getArticle (slug : Str)
  | createArticle (body : JsValue)
  | updateArticle (slug : Str) (body : JsValue)
  | deleteArticle (slug : Str)
  | createFavorite (slug : Str)
  | deleteFavorite (slug : Str)
  | listComments (slug : Str)
  | createComment (slug : Str) (body : JsValue)
  | deleteComment (slug id : Str)
  | getProfile (username : Str)
  | followProfile (username : Str)
  | unfollowProfile (username : Str)

inductive Guard where
  | unguarded
  | optional
  | required
  deriving DecidableEq

def Route.guard : Route → Guard
  | .listArticles _ | .getArticle _ | .listComments _ => .optional
  | .getProfile _ => .unguarded
  | .feedArticles _ | .createArticle _ | .updateArticle _ _ | .deleteArticle _ | .createFavorite _
  | .deleteFavorite _ | .createComment _ _ | .deleteComment _ _ | .followProfile _
  | .unfollowProfile _ => .required

def Guard.canActivate (service : Auth.Gate.AuthService) (request : Auth.Gate.Request) :
    Guard → Auth.Gate.Outcome
  | .unguarded => (.ok true, request)
  | .optional => Auth.Gate.OptionalAuthTokenGuard.canActivate service request
  | .required => Auth.Gate.AuthTokenGuard.canActivate service request

/-- What a request draws: the ids of its rows, and the suffix of a slug. -/
structure Drawn where
  articleId : Uuid
  slugId : Str
  newTagId : Str → Uuid
  commentId : ℕ

structure HttpRequest where
  now : Timestamp
  authorization : Option Str
  route : Route
  drawn : Drawn
  /-- The claims of a token; `none` where its verification fails. -/
  verify : Str → Option JsValue
  client : Auth.Gate.TokenDenyListClient

/-- The service that the guards of the request ask. -/
def HttpRequest.authService (r : HttpRequest) : Auth.Gate.AuthService where
  tokenVerifier := some fun token => (r.verify token).elim (.error .other) .ok
  tokenDenyList := some r.client

/-- The parameter, or what the pipe throws. -/
def pipe {α : Type} (body : Piped α) : Except Exception α :=
  body.mapError ValidationErrors.exception

/-- `ParseIntPipe`, on the number that the global pipe makes of the parameter: an integer whose text
has no exponent. -/
def ParseIntPipe : JsNumber → Option ℤ
  | .finite q => if q.isInt ∧ |q.num| < 10 ^ 21 then some q.num else none
  | .infinite _ | .nan => none

/-- What a method of a controller asks of its service. -/
inductive Invocation where
  | call (call : Call)
  /-- `ArticleCreateService.create` with an array for the article. -/
  | createArray (username : Str)

/-- What the method of the controller asks for, with `request.auth?.sub`; or what a pipe throws. -/
def Route.invocation (P : Platform) (drawn : Drawn) (sub : Option Str) :
    Route → Except Exception Invocation
  | .listArticles query => (pipe (ArticleListQueryDto.ofQuery P.libraries query)).map fun query =>
      .call (.listArticles query sub)
  | .feedArticles query => (pipe (ArticlePaginationDto.ofQuery P.libraries query)).map fun query =>
      .call (.feedArticles query (sub.getD []))
  | .getArticle slug => .ok (.call (.getArticle slug sub))
  | .createArticle body =>
    (pipe (Validation.CreateArticleRequestDto.read P.libraries body)).map fun
      | none => .createArray (sub.getD [])
      | some request => .call <| .createArticle
          { username := sub.getD []
            request := request
            id := drawn.articleId
            slug := createArticleSlug P.unicode request.title drawn.slugId
            newTagId := drawn.newTagId }
  | .updateArticle slug body =>
    (pipe (Validation.ArticleUpdateRequestDto.read P.libraries body)).map fun request =>
      .call <| .updateArticle
        { slug := slug
          username := sub.getD []
          request := request
          newTagId := drawn.newTagId }
  | .deleteArticle slug => .ok (.call (.deleteArticle slug (sub.getD [])))
  | .createFavorite slug => .ok (.call (.createFavorite slug (sub.getD [])))
  | .deleteFavorite slug => .ok (.call (.deleteFavorite slug (sub.getD [])))
  | .listComments slug => .ok (.call (.listComments slug sub))
  | .createComment slug body =>
    (pipe (Validation.CreateCommentRequestDto.read P.libraries body)).map fun body =>
      .call <| .createComment
        { slug := slug
          username := sub.getD []
          body := body
          id := drawn.commentId }
  | .deleteComment slug id =>
    match ParseIntPipe (P.toNumber id) with
    | some commentId => .ok (.call (.deleteComment slug commentId (sub.getD [])))
    | none => .error (HttpException 422 "id" "must be an integer")
  | .getProfile username => .ok (.call (.getProfile username))
  | .followProfile username => .ok (.call (.follow (sub.getD []) username))
  | .unfollowProfile username => .ok (.call (.unfollow (sub.getD []) username))

end MediumClone.Blog
